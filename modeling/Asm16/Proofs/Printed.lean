import Asm16.Proofs.Decoding
import Asm16.Proofs.Leading
import Asm16.Proofs.Numerals

/-!
# Printed operands

Every operand that `OperandCode.format` prints is read as an operand again (`exists_printed`). Its
text is cut into lexemes by the same steps whatever stands behind it (`run_among_word`,
`run_among_numeral`), and the lexemes have one of the forms of the grammar.

`OperandCode.respelled` is what they stand for : the same code with the same word, but for a literal
in A position that has a shorter code, and for the code of `-1`, which no operand is assembled to.
-/

namespace Asm16

/-! ## Steps among operands -/

namespace Lexer

/-- Reading stands among the operands of an instruction. -/
def among (depth : Int) (pick : Option Int) (afterValue : Bool) : State :=
  ⟨.operands, depth, pick, false, false, afterValue⟩

/-- A literal with a known value. -/
def numeral (text : Bytes) (n : Int) : Lexeme := ⟨.literal, text, some (.resolved n), false, []⟩

/-- The end of an open `PICK` operand. -/
def pickEnds (pick : Option Int) : List Lexeme := if pick.isSome then [mark .pickEnd] else []

/-- A word or a numeral ends before a text. -/
def Stops (tail : Bytes) : Prop := ∀ c, tail.head? = some c → isWordByte c = false

theorem stops_cons {c : UInt8} (h : isWordByte c = false) (tail : Bytes) : Stops (c :: tail) := by
  rintro _ ⟨⟩
  exact h

section Steps

variable {depth : Int} {pick : Option Int} {afterValue : Bool} {c : UInt8} {x tail : Bytes}

theorem run_cons (st : State) (c : UInt8) (rest : Bytes) : run st (c :: rest) =
    (step st c rest).emitted ++ run (step st c rest).state (step st c rest).rest := by
  rw [run]

theorem run_among_open : run (among depth pick afterValue) (byte '[' :: tail) =
    plain .addressStart [byte '['] :: run (among (depth + 1) pick false) tail := by
  rw [run_cons]
  rfl

theorem run_among_close : run (among depth pick afterValue) (byte ']' :: tail) =
    plain .addressEnd [byte ']'] :: run (among (depth + -1) pick true) tail := by
  rw [run_cons]
  rfl

theorem run_among_plus : run (among depth pick true) (byte '+' :: tail) =
    plain .operator [byte '+'] :: run (among depth pick false) tail := by
  rw [run_cons]
  rfl

theorem run_among_minus : run (among depth pick false) (byte '-' :: tail) =
    plain .unaryOperator [byte '-'] :: run (among depth pick false) tail := by
  rw [run_cons]
  rfl

theorem run_among_nil : run (among depth pick afterValue) [] = pickEnds pick ++ [mark .eof] := by
  rw [run]
  cases pick <;> rfl

theorem run_among_comma (hp : pick = none ∨ pick = some depth) :
    run (among depth pick afterValue) (byte ',' :: tail) =
      pickEnds pick ++ plain .separator [byte ','] :: run (among depth none false) tail := by
  have hstep : stepAt (among depth pick afterValue) (byte ',') tail =
      commaStep (among depth pick afterValue) tail := rfl
  rw [run_cons, step, hstep]
  rcases hp with rfl | rfl
  · rfl
  · simp [commaStep, among, pickEnds, endsValue, mark, plain]

theorem run_among_blank (h : ∀ c, tail.head? = some c → isBlank c = false) :
    run (among depth pick afterValue) (byte ' ' :: tail) =
      plain .whitespace [byte ' '] :: run (among depth pick afterValue) tail := by
  have htake : tail.takeWhile isBlank = [] := takeWhile_append_of_head? (x := []) (by simp) h
  have hdrop : tail.dropWhile isBlank = tail := dropWhile_append_of_head? (x := []) (by simp) h
  have hstep : stepAt (among depth pick afterValue) (byte ' ') tail =
      ⟨[plain .whitespace (byte ' ' :: tail.takeWhile isBlank)], among depth pick afterValue,
        tail.dropWhile isBlank⟩ := rfl
  rw [run_cons, step, hstep, htake, hdrop]
  rfl

/-- A byte that begins a word or a numeral is none of the marks of a line. -/
theorem stepAt_among_word (hc : isWordByte c = true) :
    stepAt (among depth pick afterValue) c tail =
      if isDigit c then numberStep (among depth pick afterValue) c tail
      else wordStep (among depth pick afterValue) c tail := by
  have hblank : isBlank c = false := by
    grind [isWordByte, isBlank, isLetter, isLower, isUpper, isDigit]
  have hbracket : bracket? c = none := by
    grind [isWordByte, bracket?, isLetter, isLower, isUpper, isDigit]
  have hoperator : operator? (among depth pick afterValue) c = none := by
    grind [isWordByte, operator?, isLetter, isLower, isUpper, isDigit]
  have hmark : c ≠ byte ';' ∧ c ≠ byte ',' ∧ c ≠ byte '\'' ∧ c ≠ byte '"' := by
    grind [isWordByte, isLetter, isLower, isUpper, isDigit]
  have hname : isDigit c = false → isNameStart c = true := by
    grind [isWordByte, isNameStart]
  rw [stepAt, if_neg (by simp [hblank]), if_neg hmark.1, if_neg (by simp [among]), operandStep,
    if_neg hmark.2.1, if_neg (by simp [among]), valueStep, hbracket, hoperator]
  simp only
  split
  · rfl
  · rename_i hd
    rw [if_neg hmark.2.2.1, if_neg hmark.2.2.2, hname (by simpa using hd)]
    simp

theorem run_among_numeral {n : Int} (hc : isDigit c = true) (hx : ∀ d ∈ x, isWordByte d = true)
    (htail : Stops tail) (hread : Numeral.read (c :: x) = .ok n) :
    run (among depth pick afterValue) (c :: x ++ tail) =
      numeral (c :: x) n :: run (among depth pick true) tail := by
  have hword : isWordByte c = true := by grind [isWordByte]
  rw [List.cons_append, run_cons, step, stepAt_among_word hword, if_pos hc, numberStep,
    takeWhile_append_of_head? hx htail, dropWhile_append_of_head? hx htail, hread]
  rfl

theorem run_among_word (hc : isNameStart c = true) (hx : ∀ d ∈ x, isWordByte d = true)
    (htail : Stops tail) : run (among depth pick afterValue) (c :: x ++ tail) =
      wordLexeme (c :: x) ::
        run (among depth (if (wordLexeme (c :: x)).kind = .pickStart then some depth else pick)
          (endsValue afterValue (wordLexeme (c :: x)).kind)) tail := by
  have hword : isWordByte c = true := by grind [isWordByte, isNameStart]
  have hdigit : isDigit c = false := by
    grind [isNameStart, isDigit, isLetter, isLower, isUpper]
  have hdot : c ≠ byte '.' := by grind [isNameStart, isLetter, isLower, isUpper]
  rw [List.cons_append, run_cons, step, stepAt_among_word hword, if_neg (by simp [hdigit]),
    wordStep, identifier?_cons hdot, if_pos hc, takeWhile_append_of_head? hx htail,
    dropWhile_append_of_head? hx htail]
  simp only
  split <;> rfl

theorem run_among_hexWord (w : UInt16) (htail : Stops tail) :
    run (among depth pick afterValue) (OperandCode.hexWord w ++ tail) =
      numeral (OperandCode.hexWord w) w.toNat :: run (among depth pick true) tail :=
  run_among_numeral rfl
    (fun _ hd => OperandCode.isWordByte_of_mem_hexWord (List.mem_cons_of_mem _ hd)) htail
    (OperandCode.read_hexWord w)

end Steps

end Lexer


/-! ## Operand codes -/

namespace OperandCode

/-- The code and the words of a printed operand once it is assembled. -/
def respelled (v : OperandCode) (w : UInt16) (side : Side) : OperandCode × List UInt16 :=
  if side = .a ∧ v = next ∧ w ≤ 30 then (short + w, [])
  else if v = 0x20 then (next, [0xffff])
  else (v, if v.nextWord then [w] else [])

theorem respelled_of_ne {v : OperandCode} (hn : v ≠ next) (hm : v ≠ 0x20) (w : UInt16)
    (side : Side) : v.respelled w side = (v, if v.nextWord then [w] else []) := by
  rw [respelled, if_neg (by simp [hn]), if_neg hm]

/-- The operand codes, by the way they are printed. -/
theorem exists_form {v : OperandCode} (hv : v.toNat < 64) :
    (∃ r ∈ Register.all, v = register r) ∨ (∃ r ∈ Register.all, v = atRegister r) ∨
      (∃ r ∈ Register.all, v = atRegisterPlus r) ∨ (v = pushPop ∨ v = peek) ∨ v = pick ∨
      (v = sp ∨ v = pc ∨ v = ex) ∨ v = atNext ∨ v = next ∨ v = 0x20 ∨
      ∃ n ≤ 30, v = short + UInt16.ofNat n := by
  have hall : ∀ i < 64, (∃ r ∈ Register.all, UInt16.ofNat i = register r) ∨
      (∃ r ∈ Register.all, UInt16.ofNat i = atRegister r) ∨
      (∃ r ∈ Register.all, UInt16.ofNat i = atRegisterPlus r) ∨
      (UInt16.ofNat i = pushPop ∨ UInt16.ofNat i = peek) ∨ UInt16.ofNat i = pick ∨
      (UInt16.ofNat i = sp ∨ UInt16.ofNat i = pc ∨ UInt16.ofNat i = ex) ∨
      UInt16.ofNat i = atNext ∨ UInt16.ofNat i = next ∨ UInt16.ofNat i = 0x20 ∨
      ∃ n ≤ 30, UInt16.ofNat i = short + UInt16.ofNat n := by
    decide
  have := hall v.toNat hv
  rwa [UInt16.ofNat_toNat] at this

theorem format_register (r : Register) (w : UInt16) (side : Side) :
    (register r).format w side = r.name := by
  cases r <;> rfl

theorem format_atRegister (r : Register) (w : UInt16) (side : Side) :
    (atRegister r).format w side = byte '[' :: (r.name ++ [byte ']']) := by
  cases r <;> rfl

theorem format_atRegisterPlus (r : Register) (w : UInt16) (side : Side) :
    (atRegisterPlus r).format w side =
      byte '[' :: (r.name ++ byte '+' :: (hexWord w ++ [byte ']'])) := by
  cases r <;> rfl

end OperandCode

/-! ## Words of an operand -/

theorem ofInt_toNat (w : UInt16) : UInt16.ofInt (w.toNat : Int) = w := by
  have := w.toNat_lt
  rw [← UInt16.toNat_inj, UInt16.ofInt, UInt16.toNat_ofNat']
  omega

theorem encode_lone {code : OperandCode} {t : Token} {n : Int} (h : t.value? = some n) :
    Operand.encode ⟨code, some [t]⟩ = .ok [UInt16.ofInt n] := by
  simp only [Operand.encode, evaluateTokens, h, ok_bind]

/-- The text of the tokens of `-1`. -/
theorem evaluate_minusOne : Arith.evaluate "- 1 " = .ok (-1) := by
  obtain ⟨n, hn, hp⟩ : ∃ n, Arith.evaluate "- 1 " = .ok n ∧ decide (n = -1) = true :=
    exists_ok (by decide +kernel)
  rw [hn, of_decide_eq_true hp]

theorem encode_minusOne {t u : Token} (ht : t.toLexeme = Lexer.plain .unaryOperator [byte '-'])
    (hu : u.toLexeme = Lexer.numeral [byte '1'] 1) (code : OperandCode) :
    Operand.encode ⟨code, some [t, u]⟩ = .ok [0xffff] := by
  have htext : expressionText [t, u] = .ok ("- 1 " : Bytes) := by
    simp [expressionText, ht, hu, Lexer.plain, Lexer.numeral, Lexeme.value?, Cell.get?, ok_bind]
    rfl
  simp only [Operand.encode, evaluateTokens, htext, ok_bind, evaluate_minusOne]
  rfl

/-! ## Printed operands -/

/-- The kinds of lexemes that operands are printed with. -/
def Kind.isPrinted : Kind → Bool
  | register | stackAccess | literal | operator | unaryOperator | addressStart | addressEnd
  | pickStart | whitespace => true
  | _ => false

/-- A short text that stands on one line and does not begin with a blank. -/
def isPrintedText (s : Bytes) : Bool :=
  s.head?.any (!isBlank ·) && s.all (fun c => c != byte '\n' && c != byte '\r') && s.length ≤ 12

namespace OperandCode

open Lexer

/-- What is true of an operand that is printed as the lexemes `ls`; `pick` tells that they leave a
`PICK` operand open. -/
structure Printed (v : OperandCode) (w : UInt16) (side : Side) (ls : List Lexeme)
    (pick : Option Int) : Prop where
  pick_eq : pick = none ∨ pick = some 0
  text : isPrintedText (v.format w side) = true
  run_eq {tail : Bytes} (h : Stops tail) : run (among 0 none false) (v.format w side ++ tail) =
    ls ++ run (among 0 pick true) tail
  kinds : ∀ l ∈ ls, l.kind.isPrinted = true
  form {ts : List Token}
    (h : ts.map Token.toLexeme = ls.filter (·.kind.significant) ++ pickEnds pick) :
    ∃ o, Operand.Form side ts o ∧ o.code = (v.respelled w side).1 ∧
      o.encode = .ok (v.respelled w side).2

namespace Printed

variable {v : OperandCode} {w : UInt16} {side : Side}

theorem of_word {name : Bytes} {k : Kind} (hk : k = .register ∨ k = .stackAccess)
    (hname : isDefineKey name = true) (htext : isPrintedText name = true)
    (hlex : wordLexeme name = plain k name) (hformat : v.format w side = name)
    (hspell : v.respelled w side = (v, []))
    (hform : ∀ t : Token, t.toLexeme = plain k name → Operand.Form side [t] ⟨v, none⟩) :
    Printed v w side [plain k name] none where
  pick_eq := .inl rfl
  text := by rwa [hformat]
  run_eq {tail} h := by
    rw [hformat]
    match name, hname with
    | c :: x, hname =>
      obtain ⟨hc, hx⟩ := Bool.and_eq_true_iff.1 hname
      rw [run_among_word hc (List.all_eq_true.1 hx) h, hlex]
      rcases hk with rfl | rfl <;> rfl
  kinds := by rcases hk with rfl | rfl <;> simp [plain, Kind.isPrinted]
  form {ts} h := by
    have hsig : [plain k name].filter (·.kind.significant) ++ pickEnds none = [plain k name] := by
      rcases hk with rfl | rfl <;> rfl
    rw [hsig] at h
    obtain ⟨t, rfl, ht⟩ := List.map_eq_singleton_iff.1 h
    rw [hspell]
    exact ⟨_, hform t ht, rfl, rfl⟩

theorem of_register {name : Bytes} (hname : isDefineKey name = true)
    (htext : isPrintedText name = true) (hlex : wordLexeme name = plain .register name)
    (hformat : v.format w side = name) (hcode : ofName? name.upper = some v)
    (hspell : v.respelled w side = (v, [])) : Printed v w side [plain .register name] none := by
  refine of_word (.inl rfl) hname htext hlex hformat hspell fun t ht => ?_
  have hregister : Operand.registerCode t = v := by
    rw [Operand.registerCode, show t.text = name from congrArg Lexeme.text ht, hcode]
    rfl
  rw [← hregister]
  exact .register (congrArg Lexeme.kind ht)

theorem of_stack {name : Bytes} (hname : isDefineKey name = true)
    (htext : isPrintedText name = true) (hlex : wordLexeme name = plain .stackAccess name)
    (hformat : v.format w side = name) (hspell : v.respelled w side = (v, []))
    (hform : ∀ t : Token, t.kind = .stackAccess → t.text.upper = name →
      Operand.Form side [t] ⟨v, none⟩) (hupper : name.upper = name) :
    Printed v w side [plain .stackAccess name] none := by
  refine of_word (.inr rfl) hname htext hlex hformat hspell fun t ht => ?_
  refine hform t (congrArg Lexeme.kind ht) ?_
  rw [show t.text = name from congrArg Lexeme.text ht, hupper]

end Printed

theorem printed_register (r : Register) (w : UInt16) (side : Side) :
    Printed (register r) w side [plain .register r.name] none := by
  have hspell : (register r).respelled w side = (register r, []) := by
    rw [respelled_of_ne (by cases r <;> decide) (by cases r <;> decide)]
    cases r <;> rfl
  exact .of_register (by cases r <;> rfl) (by cases r <;> rfl) (by cases r <;> rfl)
    (format_register r w side) (by cases r <;> rfl) hspell

theorem exists_printed_special {v : OperandCode} (hv : v = sp ∨ v = pc ∨ v = ex) (w : UInt16)
    (side : Side) : ∃ name, Printed v w side [plain .register name] none := by
  rcases hv with rfl | rfl | rfl
  · exact ⟨"SP", .of_register rfl rfl rfl rfl rfl (respelled_of_ne (by decide) (by decide) w side)⟩
  · exact ⟨"PC", .of_register rfl rfl rfl rfl rfl (respelled_of_ne (by decide) (by decide) w side)⟩
  · exact ⟨"EX", .of_register rfl rfl rfl rfl rfl (respelled_of_ne (by decide) (by decide) w side)⟩

theorem printed_pushPop (w : UInt16) (side : Side) :
    Printed pushPop w side [plain .stackAccess (Operand.stackWord side)] none :=
  .of_stack (by cases side <;> rfl) (by cases side <;> rfl) (by cases side <;> rfl)
    (by cases side <;> rfl) (respelled_of_ne (by decide) (by decide) w side)
    (fun t ht hw => .pushPop ht hw) (by cases side <;> rfl)

theorem printed_peek (w : UInt16) (side : Side) :
    Printed peek w side [plain .stackAccess "PEEK"] none :=
  .of_stack rfl rfl rfl rfl (respelled_of_ne (by decide) (by decide) w side)
    (fun t ht hw => .peek ht hw) rfl

theorem isPrintedText_hexWord (w : UInt16) {front back : Bytes}
    (hfront : front.head?.all (!isBlank ·) = true)
    (hall : (front ++ back).all (fun c => c != byte '\n' && c != byte '\r') = true)
    (hlen : (front ++ back).length ≤ 6) : isPrintedText (front ++ hexWord w ++ back) = true := by
  have hhead : (front ++ hexWord w ++ back).head?.any (!isBlank ·) = true := by
    cases front with
    | nil => rfl
    | cons c rest => exact hfront
  have hhex : (hexWord w).all (fun c => c != byte '\n' && c != byte '\r') = true := by
    refine List.all_eq_true.2 fun c hc => ?_
    have hne {d : UInt8} (hd : isWordByte d = false) : c ≠ d := by
      rintro rfl
      rw [isWordByte_of_mem_hexWord hc] at hd
      cases hd
    exact Bool.and_eq_true_iff.2 ⟨bne_iff_ne.2 (hne rfl), bne_iff_ne.2 (hne rfl)⟩
  rw [List.all_append, Bool.and_eq_true_iff] at hall
  rw [List.length_append] at hlen
  simp only [isPrintedText, hhead, List.all_append, hall.1, hhex, hall.2, Bool.true_and,
    List.length_append, length_hexWord, decide_eq_true_eq]
  omega

theorem isExpression_numeral {t : Token} {text : Bytes} {n : Int}
    (ht : t.toLexeme = numeral text n) : IsExpression [t] := by
  have hk : t.kind = .literal := congrArg Lexeme.kind ht
  exact ⟨by simp, by simp [hk, Kind.isArithmetic]⟩

theorem encode_hexWord {t : Token} {w : UInt16} (ht : t.toLexeme = numeral (hexWord w) w.toNat)
    (code : OperandCode) : Operand.encode ⟨code, some [t]⟩ = .ok [w] := by
  have hvalue : t.value? = some (w.toNat : Int) := congrArg Lexeme.value? ht
  rw [encode_lone hvalue, ofInt_toNat]

theorem registerCode_name {t : Token} {r : Register} (ht : t.toLexeme = plain .register r.name) :
    (Operand.registerCode t).general? = some r := by
  rw [Operand.registerCode, show t.text = r.name from congrArg Lexeme.text ht]
  cases r <;> rfl

theorem run_among_name {depth : Int} {pick : Option Int} {afterValue : Bool} {tail : Bytes}
    (r : Register) (htail : Stops tail) : run (among depth pick afterValue) (r.name ++ tail) =
      plain .register r.name :: run (among depth pick true) tail := by
  cases r <;> exact run_among_word rfl (by simp) htail

theorem printed_atRegister (r : Register) (w : UInt16) (side : Side) : Printed (atRegister r) w side
    [plain .addressStart [byte '['], plain .register r.name, plain .addressEnd [byte ']']]
    none where
  pick_eq := .inl rfl
  text := by cases r <;> rfl
  run_eq {tail} h := by
    rw [format_atRegister, List.cons_append, run_among_open, List.append_assoc,
      List.singleton_append, run_among_name r (stops_cons rfl _), run_among_close]
    rfl
  kinds := by simp [plain, Kind.isPrinted]
  form {ts} h := by
    have hspell : (atRegister r).respelled w side = (atRegister r, []) := by
      rw [respelled_of_ne (by cases r <;> decide) (by cases r <;> decide)]
      cases r <;> rfl
    obtain ⟨opening, rest, rfl, ho, h⟩ := List.map_eq_cons_iff.1 h
    obtain ⟨t, rest, rfl, ht, h⟩ := List.map_eq_cons_iff.1 h
    obtain ⟨closing, rfl, hc⟩ := List.map_eq_singleton_iff.1 h
    have hb : Operand.Bracketed [t] [opening, t, closing] :=
      ⟨opening, closing, congrArg Lexeme.kind ho, congrArg Lexeme.kind hc, rfl⟩
    rw [hspell]
    exact ⟨_, .atRegister hb (congrArg Lexeme.kind ht) (registerCode_name ht), rfl, rfl⟩

theorem printed_atRegisterPlus (r : Register) (w : UInt16) (side : Side) :
    Printed (atRegisterPlus r) w side
      [plain .addressStart [byte '['], plain .register r.name, plain .operator [byte '+'],
        numeral (hexWord w) w.toNat, plain .addressEnd [byte ']']] none where
  pick_eq := .inl rfl
  text := by
    rw [format_atRegisterPlus, show byte '[' :: (r.name ++ byte '+' :: (hexWord w ++ [byte ']'])) =
      (byte '[' :: r.name ++ [byte '+']) ++ hexWord w ++ [byte ']'] by simp]
    exact isPrintedText_hexWord w rfl (by cases r <;> rfl) (by cases r <;> decide)
  run_eq {tail} h := by
    rw [format_atRegisterPlus, List.cons_append, run_among_open, List.append_assoc,
      List.cons_append, run_among_name r (stops_cons rfl _), run_among_plus, List.append_assoc,
      List.singleton_append, run_among_hexWord w (stops_cons rfl _), run_among_close]
    rfl
  kinds := by simp [plain, numeral, Kind.isPrinted]
  form {ts} h := by
    have hspell : (atRegisterPlus r).respelled w side = (atRegisterPlus r, [w]) := by
      rw [respelled_of_ne (by cases r <;> decide) (by cases r <;> decide)]
      cases r <;> rfl
    obtain ⟨opening, rest, rfl, ho, h⟩ := List.map_eq_cons_iff.1 h
    obtain ⟨t, rest, rfl, ht, h⟩ := List.map_eq_cons_iff.1 h
    obtain ⟨sign, rest, rfl, hs, h⟩ := List.map_eq_cons_iff.1 h
    obtain ⟨n, rest, rfl, hn, h⟩ := List.map_eq_cons_iff.1 h
    obtain ⟨closing, rfl, hc⟩ := List.map_eq_singleton_iff.1 h
    have hb : Operand.Bracketed [t, sign, n] [opening, t, sign, n, closing] :=
      ⟨opening, closing, congrArg Lexeme.kind ho, congrArg Lexeme.kind hc, rfl⟩
    have hplus : Operand.isSign '+' sign = true := by
      simp [Operand.isSign, hs, plain]
    have hoffset : Operand.Offset [t, sign, n] t [n] := .plus (congrArg Lexeme.kind ht) hplus
    rw [hspell]
    exact ⟨_, .atRegisterPlus hb hoffset (isExpression_numeral hn) (registerCode_name ht), rfl,
      encode_hexWord hn _⟩

theorem printed_pick (w : UInt16) (side : Side) : Printed pick w side
    [plain .pickStart "PICK", plain .whitespace [byte ' '], numeral (hexWord w) w.toNat]
    (some 0) where
  pick_eq := .inr rfl
  text := by
    have htext : isPrintedText (("PICK " : Bytes) ++ hexWord w ++ []) = true :=
      isPrintedText_hexWord w rfl rfl (by decide)
    rwa [List.append_nil] at htext
  run_eq {tail} h := by
    have hstops : Stops (byte ' ' :: (hexWord w ++ tail)) := stops_cons rfl _
    have hword : run (among 0 none false) (byte 'P' :: ("ICK" : Bytes) ++ _) = _ :=
      run_among_word rfl (List.all_eq_true.1 rfl) hstops
    have hblank : ∀ c, (hexWord w ++ tail).head? = some c → isBlank c = false := by
      rintro _ ⟨⟩
      rfl
    refine hword.trans ?_
    rw [run_among_blank hblank, run_among_hexWord w h]
    rfl
  kinds := by simp [plain, numeral, Kind.isPrinted]
  form {ts} h := by
    obtain ⟨first, rest, rfl, hf, h⟩ := List.map_eq_cons_iff.1 h
    obtain ⟨n, rest, rfl, hn, h⟩ := List.map_eq_cons_iff.1 h
    obtain ⟨last, rfl, hl⟩ := List.map_eq_singleton_iff.1 h
    rw [respelled_of_ne (by decide) (by decide)]
    have hform : Operand.Form side (first :: ([n] ++ [last])) ⟨pick, some [n]⟩ :=
      .pick (congrArg Lexeme.kind hf) (congrArg Lexeme.kind hl) (isExpression_numeral hn)
    exact ⟨_, hform, rfl, encode_hexWord hn _⟩

theorem printed_atNext (w : UInt16) (side : Side) : Printed atNext w side
    [plain .addressStart [byte '['], numeral (hexWord w) w.toNat, plain .addressEnd [byte ']']]
    none where
  pick_eq := .inl rfl
  text := by
    have htext : isPrintedText ([byte '['] ++ hexWord w ++ [byte ']']) = true :=
      isPrintedText_hexWord w rfl rfl (by decide)
    exact htext
  run_eq {tail} h := by
    have hformat : atNext.format w side = byte '[' :: (hexWord w ++ [byte ']']) := rfl
    rw [hformat, List.cons_append, run_among_open, List.append_assoc, List.singleton_append,
      run_among_hexWord w (stops_cons rfl _), run_among_close]
    rfl
  kinds := by simp [plain, numeral, Kind.isPrinted]
  form {ts} h := by
    obtain ⟨opening, rest, rfl, ho, h⟩ := List.map_eq_cons_iff.1 h
    obtain ⟨n, rest, rfl, hn, h⟩ := List.map_eq_cons_iff.1 h
    obtain ⟨closing, rfl, hc⟩ := List.map_eq_singleton_iff.1 h
    have hb : Operand.Bracketed [n] [opening, n, closing] :=
      ⟨opening, closing, congrArg Lexeme.kind ho, congrArg Lexeme.kind hc, rfl⟩
    rw [respelled_of_ne (by decide) (by decide)]
    exact ⟨_, .atNext hb (isExpression_numeral hn), rfl, encode_hexWord hn _⟩

theorem shortCode?_numeral {t : Token} {text : Bytes} {n : Int} (ht : t.toLexeme = numeral text n)
    (side : Side) :
    Operand.shortCode? side [t] = if side = .a then ofShort? n else none := by
  have hk : t.kind = .literal := congrArg Lexeme.kind ht
  have hvalue : t.value? = some n := congrArg Lexeme.value? ht
  simp [Operand.shortCode?, hk, hvalue]

theorem printed_next (w : UInt16) (side : Side) :
    Printed next w side [numeral (hexWord w) w.toNat] none where
  pick_eq := .inl rfl
  text := by
    have htext : isPrintedText ([] ++ hexWord w ++ []) = true :=
      isPrintedText_hexWord w rfl rfl (by decide)
    rwa [List.nil_append, List.append_nil] at htext
  run_eq {tail} h := run_among_hexWord w h
  kinds := by simp [numeral, Kind.isPrinted]
  form {ts} h := by
    obtain ⟨t, rfl, ht⟩ := List.map_eq_singleton_iff.1 h
    have he := isExpression_numeral ht
    have hshort := shortCode?_numeral ht side
    have hle : w ≤ 30 ↔ 0 ≤ (w.toNat : Int) ∧ (w.toNat : Int) ≤ 30 := by
      have : (30 : UInt16).toNat = 30 := rfl
      rw [UInt16.le_iff_toNat_le]
      omega
    by_cases hw : side = .a ∧ w ≤ 30
    · rw [if_pos hw.1, ofShort?, if_pos (hle.1 hw.2), ofInt_toNat] at hshort
      rw [respelled, if_pos ⟨hw.1, rfl, hw.2⟩]
      exact ⟨_, .short he hshort, rfl, rfl⟩
    · have hnone : Operand.shortCode? side [t] = none := by
        rw [hshort]
        split
        · rename_i hside
          exact if_neg fun h => hw ⟨hside, hle.2 h⟩
        · rfl
      rw [respelled, if_neg fun h => hw ⟨h.1, h.2.2⟩, if_neg (by decide)]
      exact ⟨_, .expression he hnone, rfl, encode_hexWord ht _⟩

theorem printed_minusOne (w : UInt16) (side : Side) :
    Printed 0x20 w side [plain .unaryOperator [byte '-'], numeral [byte '1'] 1] none where
  pick_eq := .inl rfl
  text := rfl
  run_eq {tail} h := by
    have hformat : format 0x20 w side = [byte '-', byte '1'] := rfl
    have hone : run (among 0 none false) (byte '1' :: [] ++ tail) = numeral [byte '1'] 1 :: _ :=
      run_among_numeral rfl (by simp) h rfl
    rw [hformat, List.cons_append, run_among_minus, hone]
    rfl
  kinds := by simp [plain, numeral, Kind.isPrinted]
  form {ts} h := by
    obtain ⟨t, rest, rfl, ht, h⟩ := List.map_eq_cons_iff.1 h
    obtain ⟨u, rfl, hu⟩ := List.map_eq_singleton_iff.1 h
    have hk : t.kind = .unaryOperator := congrArg Lexeme.kind ht
    have hk' : u.kind = .literal := congrArg Lexeme.kind hu
    have he : IsExpression [t, u] := ⟨by simp, by simp [hk, hk', Kind.isArithmetic]⟩
    rw [respelled, if_neg fun h => absurd h.2.1 (by decide), if_pos rfl]
    exact ⟨_, .expression he rfl, rfl, encode_minusOne ht hu _⟩

/-- The short literals in decimal. -/
theorem decimal_spec : ∀ n ≤ 30, (Numeral.decimal n).head?.any isDigit = true ∧
    (Numeral.decimal n).all isWordByte = true ∧ isPrintedText (Numeral.decimal n) = true ∧
    (Numeral.read (Numeral.decimal n)).toOption = some (n : Int) := by
  decide

theorem toNat_short {n : Nat} (hn : n ≤ 30) : (short + UInt16.ofNat n).toNat = 33 + n := by
  have hshort : short.toNat = 33 := rfl
  rw [UInt16.toNat_add, UInt16.toNat_ofNat']
  omega

theorem short_ne {n : Nat} (hn : n ≤ 30) {k : UInt16} (hk : k.toNat ≤ 32) :
    short + UInt16.ofNat n ≠ k := by
  rintro rfl
  have := toNat_short hn
  omega

theorem ofShort?_natCast {n : Nat} (hn : n ≤ 30) :
    ofShort? (n : Int) = some (short + UInt16.ofNat n) := by
  have hof : UInt16.ofInt (n : Int) = UInt16.ofNat n := by
    rw [← UInt16.toNat_inj, UInt16.ofInt, UInt16.toNat_ofNat', UInt16.toNat_ofNat']
    omega
  rw [ofShort?, if_pos ⟨by omega, by omega⟩, hof]

theorem format_short {n : Nat} (hn : n ≤ 30) (w : UInt16) (side : Side) :
    (short + UInt16.ofNat n).format w side = Numeral.decimal n := by
  have hv := toNat_short hn
  have hne {k : UInt16} (hk : k.toNat ≤ 32) : short + UInt16.ofNat n ≠ k := short_ne hn hk
  generalize short + UInt16.ofNat n = v at hv hne
  have hlt {k : UInt16} (hk : k.toNat ≤ 32) : ¬v < k := by
    rw [UInt16.lt_iff_toNat_lt]
    omega
  have hsub : ((v.toNat : Int) - short.toNat) = n := by
    have : short.toNat = 33 := rfl
    omega
  unfold format
  rw [if_neg (hlt (by decide)), if_neg (hlt (by decide)), if_neg (hlt (by decide)),
    if_neg (hne (by decide)), if_neg (hne (by decide)), if_neg (hne (by decide)),
    if_neg (hne (by decide)), if_neg (hne (by decide)), if_neg (hne (by decide)),
    if_neg (hne (by decide)), if_neg (hne (by decide)), hsub, Numeral.ofInt, if_neg (by omega),
    Int.natAbs_natCast]

theorem printed_short {n : Nat} (hn : n ≤ 30) (w : UInt16) :
    Printed (short + UInt16.ofNat n) w .a [numeral (Numeral.decimal n) n] none := by
  obtain ⟨hdigit, hword, htext, hread⟩ := decimal_spec n hn
  have hcode := ofShort?_natCast hn
  have hspell : (short + UInt16.ofNat n).respelled w .a = (short + UInt16.ofNat n, []) := by
    rw [respelled_of_ne (short_ne hn (by decide)) (short_ne hn (by decide)),
      nextWord_of_ofShort? hcode]
    rfl
  refine ⟨.inl rfl, by rwa [format_short hn], fun {tail} h => ?_, by simp [numeral, Kind.isPrinted],
    fun {ts} h => ?_⟩
  · rw [format_short hn]
    cases hd : Numeral.decimal n with
    | nil => simp [hd] at hdigit
    | cons c x =>
      rw [hd] at hdigit hword hread
      obtain ⟨-, hx⟩ := Bool.and_eq_true_iff.1 hword
      cases hr : Numeral.read (c :: x) with
      | error e => simp [hr, Except.toOption] at hread
      | ok m =>
        obtain rfl : m = n := by simpa [hr, Except.toOption] using hread
        exact run_among_numeral hdigit (List.all_eq_true.1 hx) h hr
  · obtain ⟨t, rfl, ht⟩ := List.map_eq_singleton_iff.1 h
    have hshort : Operand.shortCode? .a [t] = some (short + UInt16.ofNat n) := by
      rw [shortCode?_numeral ht, if_pos rfl, hcode]
    rw [hspell]
    exact ⟨_, .short (isExpression_numeral ht) hshort, rfl, rfl⟩

/-- Every operand that has room in the field of its side is printed as an operand. -/
theorem exists_printed {v : OperandCode} {side : Side} (hv : v.toNat < side.room) (w : UInt16) :
    ∃ ls pick, Printed v w side ls pick := by
  have hroom : v.toNat < 64 := Nat.lt_of_lt_of_le hv (by cases side <;> decide)
  rcases exists_form hroom with ⟨r, -, rfl⟩ | ⟨r, -, rfl⟩ | ⟨r, -, rfl⟩ | (rfl | rfl) | rfl |
    hv | rfl | rfl | rfl | ⟨n, hn, rfl⟩
  · exact ⟨_, _, printed_register r w side⟩
  · exact ⟨_, _, printed_atRegister r w side⟩
  · exact ⟨_, _, printed_atRegisterPlus r w side⟩
  · exact ⟨_, _, printed_pushPop w side⟩
  · exact ⟨_, _, printed_peek w side⟩
  · exact ⟨_, _, printed_pick w side⟩
  · obtain ⟨name, h⟩ := exists_printed_special hv w side
    exact ⟨_, _, h⟩
  · exact ⟨_, _, printed_atNext w side⟩
  · exact ⟨_, _, printed_next w side⟩
  · exact ⟨_, _, printed_minusOne w side⟩
  · cases side with
    | a => exact ⟨_, _, printed_short hn w⟩
    | b =>
      rw [toNat_short hn] at hv
      have hroom : Side.b.room = 32 := rfl
      omega

end OperandCode

end Asm16
