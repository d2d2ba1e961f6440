import Asm16.Proofs.DataArithmetic
import Asm16.Proofs.LateErrors

/-!
# Offsets of registers

An address may be a register and an offset, joined by a sign. The word that follows the instruction
is the value of the offset. Behind a plus it is the value of the offset behind `0+`, however the
offset is written, since a plus in front changes no grouping (`Derives.zero_plus`). Behind a minus
the offset is negated as a whole, so the word is the value of the offset in parentheses behind `0-`.
Without the parentheses that is the same if the offset is a term, with no operators outside
parentheses but multiplication and division; if it is a sum, the minus belongs to its first term
only.
-/

namespace Asm16

namespace Arith

open Numeral

/-! ## The expression of a text -/

/-- A text writes one expression only. -/
theorem Spelled.expr_eq {syms syms' : List Symbol} {s : Bytes} {x y : Expr} (h : Spelled syms s)
    (hx : Derives 0 syms x) (h' : Spelled syms' s) (hy : Derives 0 syms' y) : x = y := by
  obtain ⟨tree, htree, htx⟩ := exists_ofStream_iff.2 (exists_leads_scan_iff.2 ⟨syms, h, hx⟩)
  obtain ⟨tree', htree', hty⟩ := exists_ofStream_iff.2 (exists_leads_scan_iff.2 ⟨syms', h', hy⟩)
  obtain rfl := Except.ok.inj (htree.symm.trans htree')
  exact Option.some.inj (htx.symm.trans hty)

/-- A text that writes an expression has its value, if that fits. -/
theorem Spelled.evaluate_eq_ok {syms : List Symbol} {s : Bytes} {x : Expr} (h : Spelled syms s)
    (hx : Derives 0 syms x) {v : Int} : evaluate s = .ok v ↔ x.value? = some v ∧ FitsInt v := by
  rw [Arith.evaluate_eq_ok]
  constructor
  · rintro ⟨syms', y, h', hy, hvalue⟩
    rwa [h.expr_eq hx (h.trim.1 h') hy]
  · exact fun hvalue => ⟨syms, x, h.trim.2 h, hx, hvalue⟩

/-! ## Zero in front -/

/-- A term behind `0+` or `0-`. -/
theorem Derives.zero_sign {rank : Nat} {syms : List Symbol} {x : Expr} (h : Derives 4 syms x)
    (op : Operator) (hop : op.rank = 3) (hrank : rank ≤ 3) :
    Derives rank (.int 0 :: op.symbol :: syms) (.binary op (.literal 0) x) := by
  have hzero : Derives op.rank [.int 0] (.literal 0) := .literal (by decide)
  exact .binary (by omega) hzero (hop ▸ h)

theorem value?_zero_add (x : Expr) : (Expr.binary .add (.literal 0) x).value? = x.value? := by
  cases hx : x.value? <;> simp [Expr.value?, hx, Operator.result?]

theorem value?_zero_sub (x : Expr) :
    (Expr.binary .sub (.literal 0) x).value? = x.value?.map (- ·) := by
  cases hx : x.value? <;> simp [Expr.value?, hx, Operator.result?]

/-- A zero and a plus in front change no value : they are grouped with the first term. -/
theorem Derives.zero_plus {rank : Nat} {syms : List Symbol} {x : Expr} (h : Derives rank syms x)
    (hrank : rank ≤ 3) :
    ∃ y, Derives rank (.int 0 :: .plus :: syms) y ∧ y.value? = x.value? := by
  have hterm {rank : Nat} {syms : List Symbol} {x : Expr} (h : Derives 4 syms x)
      (hrank : rank ≤ 3) : ∃ y, Derives rank (.int 0 :: .plus :: syms) y ∧ y.value? = x.value? :=
    ⟨_, h.zero_sign .add rfl hrank, value?_zero_add x⟩
  induction h with
  | literal hn => exact hterm (.literal hn) hrank
  | paren h => exact hterm (.paren h) hrank
  | unary h => exact hterm (.unary h) hrank
  | @binary rank op xs ys x y hop hx hy ihx _ =>
    by_cases hle : op.rank ≤ 3
    · obtain ⟨x', hx', hvalue⟩ := ihx hle
      refine ⟨.binary op x' y, .binary hop hx' hy, ?_⟩
      rw [Expr.value?, Expr.value?, hvalue]
    · exact hterm (.binary (by omega) hx hy) hrank

/-- The text of a zero and a sign in front. -/
theorem Spelled.zero_sign {syms : List Symbol} {s : Bytes} (h : Spelled syms s) (op : Operator) :
    Spelled (.int 0 :: op.symbol :: syms) (byte '0' :: (op.text ++ s)) := by
  have hzero : Literal [byte '0'] 0 := literal_decimal 0
  have hsign : Spelled [op.symbol] op.text := op.spelling_symbol ▸ spelled_mark op.isMark_symbol
  exact Spelled.cons (g := []) isGap_nil (.int hzero) (hsign.append h)

theorem Spelled.paren {syms : List Symbol} {s : Bytes} (h : Spelled syms s) :
    Spelled (.parenOpen :: (syms ++ [.parenClose])) (byte '(' :: (s ++ [byte ')'])) := by
  have hopen : Spelled [.parenOpen] [byte '('] := spelled_mark rfl
  have hclose : Spelled [.parenClose] [byte ')'] := spelled_mark rfl
  exact hopen.append (h.append hclose)

/-! ## Printed numbers -/

theorem Derives.ne_nil {rank : Nat} {syms : List Symbol} {x : Expr} (h : Derives rank syms x) :
    syms ≠ [] := by
  obtain ⟨symbol, rest, rfl, -⟩ := h.exists_cons
  exact List.cons_ne_nil _ _

theorem Derives.eq_literal {rank n : Nat} {syms : List Symbol} {x : Expr}
    (h : Derives rank syms x) (hsyms : syms = [.int n]) : x = .literal n ∧ n < intLimit := by
  cases h with
  | literal hn =>
    obtain ⟨rfl, -⟩ : _ ∧ True := by simpa using hsyms
    exact ⟨rfl, hn⟩
  | paren => cases hsyms
  | @unary _ op => cases op <;> cases hsyms
  | binary _ hx hy =>
    have hlen := congrArg List.length hsyms
    have := List.length_pos_iff.2 hx.ne_nil
    simp at hlen
    omega

theorem Derives.eq_minus {rank n : Nat} {syms : List Symbol} {x : Expr} (h : Derives rank syms x)
    (hsyms : syms = [.minus, .int n]) : x = .unary .minus (.literal n) ∧ n < intLimit := by
  cases h with
  | literal => cases hsyms
  | paren => cases hsyms
  | @unary _ op _ _ h =>
    obtain ⟨hop, hnumber⟩ := List.cons.inj hsyms
    obtain ⟨rfl, hn⟩ := h.eq_literal hnumber
    cases op with
    | minus => exact ⟨rfl, hn⟩
    | plus | complement => cases hop
  | binary _ hx hy =>
    have hlen := congrArg List.length hsyms
    have := List.length_pos_iff.2 hx.ne_nil
    have := List.length_pos_iff.2 hy.ne_nil
    simp at hlen
    omega

/-- A printed number writes nothing but the number. -/
theorem value?_of_ofInt {n : Int} {syms : List Symbol} {x : Expr}
    (h : Spelled syms (ofInt n ++ " ")) (hx : Derives 0 syms x) :
    x.value? = some n ∧ FitsInt n := by
  have hnumber : Parted [.int n.natAbs] (decimal n.natAbs ++ " ") := by
    refine .int (g := []) isGap_nil (literal_decimal _) ?_ (.nil fun c hc => ?_)
    · intro c hc
      obtain rfl := Option.some.inj hc
      rfl
    · exact Or.inl (List.mem_singleton.1 hc)
  have hslash : SlashesApart (decimal n.natAbs ++ " ") := by
    have hword := slashesApart_of_isWord (isWord_of_literal (literal_decimal n.natAbs)).all
    simpa using hword.append_gap .nil
  unfold FitsInt
  by_cases hneg : n < 0
  · rw [ofInt, if_pos hneg] at h
    have hminus : Parted [.minus, .int n.natAbs] (byte '-' :: decimal n.natAbs ++ " ") :=
      .mark (g := []) isGap_nil (by decide) hnumber
    have hapart : SlashesApart (byte '-' :: decimal n.natAbs ++ " ") := by
      refine List.isChain_cons.2 ⟨?_, hslash⟩
      rintro c - ⟨hc, -⟩
      cases hc
    obtain ⟨rfl, hn⟩ := hx.eq_minus ((hx.parted h hapart).eq hminus)
    refine ⟨?_, by omega, by omega⟩
    show some (-(n.natAbs : Int)) = some n
    rw [Int.ofNat_natAbs_of_nonpos (by omega), Int.neg_neg]
  · rw [ofInt, if_neg hneg] at h
    obtain ⟨rfl, hn⟩ := hx.eq_literal ((hx.parted h hslash).eq hnumber)
    refine ⟨?_, by omega, by omega⟩
    show some (n.natAbs : Int) = some n
    rw [Int.natAbs_of_nonneg (by omega)]

end Arith

open Arith Numeral

/-! ## The value of an offset -/

/-- Tokens that write an expression have its value, if that fits. -/
theorem evaluateTokens_eq_ok {e : List Token} {s : Bytes} {syms : List Symbol} {x : Expr}
    (hvalueless : ∀ t ∈ e, Lexer.isValueless t.kind = true → t.value? = none)
    (hs : expressionText e = .ok s) (h : Spelled syms s) (hx : Derives 0 syms x) {v : Int} :
    evaluateTokens e = .ok v ↔ x.value? = some v ∧ FitsInt v := by
  by_cases hlone : ∀ t, e = [t] → t.value? = none
  · rw [evaluateTokens_of_expressionText hs hlone, h.evaluate_eq_ok hx]
  · -- a lone literal or label is not printed : its value is taken as it is
    push Not at hlone
    obtain ⟨t, rfl, hvalue⟩ := hlone
    obtain ⟨n, hn⟩ := Option.ne_none_iff_exists'.1 hvalue
    have hkind : t.kind = .literal ∨ t.kind = .labelUse := by
      by_contra hk
      refine hvalue (hvalueless t (List.mem_singleton_self t) ?_)
      cases hkind : t.kind <;> simp_all [Lexer.isValueless]
    have htext : s = ofInt n ++ " " := by
      rcases hkind with hk | hk <;>
        simpa [expressionText, hk, hn, bind, Except.bind, eq_comm] using hs
    subst htext
    obtain ⟨hxn, hfits⟩ := value?_of_ofInt h hx
    simp only [evaluateTokens, hn, Except.ok.injEq, hxn, Option.some.injEq]
    constructor
    · rintro rfl
      exact ⟨rfl, hfits⟩
    · exact fun h => h.1

theorem expressionText_append {e e' : List Token} {s s' : Bytes} (h : expressionText e = .ok s)
    (h' : expressionText e' = .ok s') : expressionText (e ++ e') = .ok (s ++ s') := by
  induction e generalizing s with
  | nil =>
    obtain rfl := Except.ok.inj h
    exact h'
  | cons t e ih =>
    rw [expressionText_cons] at h
    obtain ⟨here, hhere, h⟩ := bind_eq_ok.1 h
    obtain ⟨more, hmore, rfl⟩ := map_eq_ok.1 h
    rw [List.cons_append, expressionText_cons, hhere, ih hmore]
    show Except.ok _ = _
    simp

namespace Operand

theorem Bracketed.inner_eq {inner inner' ts : List Token} (h : Bracketed inner ts)
    (h' : Bracketed inner' ts) : inner = inner' := by
  obtain ⟨opening, closing, -, -, rfl⟩ := h
  obtain ⟨opening', closing', -, -, heq⟩ := h'
  exact (List.append_inj' (List.cons.inj heq).2 rfl).1

/-- The arithmetic that is added to a register in front of it. -/
theorem Offset.eq_or {r r' sign : Token} {e e' : List Token} (h : Offset (r :: sign :: e) r' e')
    (hr : r.kind = .register) (he : IsExpression e') :
    isSign '+' sign ∧ e' = e ∨ isSign '-' sign ∧ e' = negate e := by
  generalize hinner : r :: sign :: e = inner at h
  cases h with
  | plus _ hs =>
    obtain ⟨rfl, rfl, rfl⟩ : _ ∧ _ ∧ _ := by simpa using hinner
    exact .inl ⟨hs, rfl⟩
  | minus _ hs =>
    obtain ⟨rfl, rfl, rfl⟩ : _ ∧ _ ∧ _ := by simpa using hinner
    exact .inr ⟨hs, rfl⟩
  | behind _ _ =>
    obtain ⟨t, rest, rfl⟩ := List.exists_cons_of_ne_nil he.1
    obtain ⟨rfl, -⟩ := List.cons.inj hinner
    exact absurd hr (he.kind_ne List.mem_cons_self rfl)

/-- What an operand of a register and something behind it is. -/
theorem Form.exists_offset {side : Side} {ts e : List Token} {r sign : Token} {o : Operand}
    (h : Form side ts o) (hb : Bracketed (r :: sign :: e) ts) (hr : r.kind = .register) :
    ∃ e', o.expr = some e' ∧ IsExpression e' ∧
      (isSign '+' sign ∧ e' = e ∨ isSign '-' sign ∧ e' = negate e) := by
  have hfirst : ∀ {t rest}, ts = t :: rest → t.kind = .addressStart := by
    rintro t rest rfl
    obtain ⟨opening, closing, hopen, -, heq⟩ := hb
    rw [(List.cons.inj heq).1, hopen]
  -- an address bracket rules out the bare forms, a register inside it the bracketed expression
  have hnot : ¬IsExpression ts := fun he => by
    obtain ⟨t, rest, rfl⟩ := List.exists_cons_of_ne_nil he.1
    exact he.kind_ne List.mem_cons_self rfl (hfirst rfl)
  cases h with
  | register hk => simp [hfirst rfl] at hk
  | peek hk => simp [hfirst rfl] at hk
  | pushPop hk => simp [hfirst rfl] at hk
  | pick hk => simp [hfirst rfl] at hk
  | atRegister hb' => cases hb.inner_eq hb'
  | atStack hb' => cases hb.inner_eq hb'
  | atNext hb' he =>
    obtain rfl := hb.inner_eq hb'
    exact absurd hr (he.kind_ne List.mem_cons_self rfl)
  | atRegisterPlus hb' ho he _ =>
    obtain rfl := hb.inner_eq hb'
    exact ⟨_, rfl, he, ho.eq_or hr he⟩
  | atStackPlus hb' ho he _ =>
    obtain rfl := hb.inner_eq hb'
    exact ⟨_, rfl, he, ho.eq_or hr he⟩
  | short he => exact absurd he hnot
  | expression he => exact absurd he hnot

theorem expressionText_negate {e : List Token} {s : Bytes} (hs : expressionText e = .ok s)
    (hne : e ≠ []) : expressionText (negate e) = .ok ("- ( " ++ (s ++ ") ")) := by
  have hclose : expressionText [implied .groupEnd ")"] = .ok ") " := rfl
  have hnegate : negate e =
      implied .unaryOperator "-" :: implied .groupStart "(" :: (e ++ [implied .groupEnd ")"]) := by
    simp [negate, hne]
  rw [hnegate, expressionText_cons, expressionText_cons, expressionText_append hs hclose]
  rfl

/-- A negated offset has the negative of its value. -/
theorem evaluateTokens_negate {e : List Token} {s : Bytes} {syms : List Symbol} {x : Expr}
    (hs : expressionText e = .ok s) (hne : e ≠ []) (h : Spelled syms s) (hx : Derives 0 syms x)
    {v : Int} : evaluateTokens (negate e) = .ok v ↔ x.value? = some (-v) ∧ FitsInt v := by
  have hlone : ∀ t, negate e = [t] → t.value? = none := by
    intro t ht
    simp [negate, hne] at ht
  have hmark {symbol : Symbol} (hm : symbol.isMark = true) :
      Spelled [symbol] (symbol.spelling ++ " ") :=
    (spelled_mark hm).append (.nil fun c hc => Or.inl (List.mem_singleton.1 hc))
  have hminus : Spelled [.minus] "- " := hmark rfl
  have hopen : Spelled [.parenOpen] "( " := hmark rfl
  have hclose : Spelled [.parenClose] ") " := hmark rfl
  have htext : Spelled (.minus :: .parenOpen :: (syms ++ [.parenClose])) ("- ( " ++ (s ++ ") ")) :=
    hminus.append (hopen.append (h.append hclose))
  have hderives : Derives 0 (.minus :: .parenOpen :: (syms ++ [.parenClose])) (.unary .minus x) :=
    @Derives.unary 0 .minus _ x (.paren hx)
  rw [evaluateTokens_of_expressionText (expressionText_negate hs hne) hlone,
    htext.evaluate_eq_ok hderives]
  refine and_congr_left fun _ => ?_
  cases hvalue : x.value? with
  | none => simp [Expr.value?, hvalue]
  | some n =>
    simp only [Expr.value?, hvalue, Option.map_some, UnaryOp.apply, Option.some.injEq]
    omega

/-- The word for an offset that writes an expression. -/
theorem Form.offset_spec {side : Side} {ts e : List Token} {r sign : Token} {o : Operand}
    {ws : List UInt16} {s : Bytes} {syms : List Symbol} {x : Expr} (h : Form side ts o)
    (hb : Bracketed (r :: sign :: e) ts) (hr : r.kind = .register)
    (hvalueless : ∀ t ∈ e, Lexer.isValueless t.kind = true → t.value? = none)
    (hws : o.encode = .ok ws) (hs : expressionText e = .ok s) (hsyms : Spelled syms s)
    (hx : Derives 0 syms x) : ∃ n, FitsInt n ∧ ws = [UInt16.ofInt n] ∧
      (isSign '-' sign → x.value? = some (-n)) ∧ (isSign '+' sign → x.value? = some n) := by
  obtain ⟨e', he', hexpr, hoffset⟩ := h.exists_offset hb hr
  rw [encode, he'] at hws
  obtain ⟨n, hn, hws⟩ := bind_eq_ok.1 hws
  obtain rfl := Except.ok.inj hws
  have hne {c d : Char} (hc : isSign c sign) (hd : isSign d sign) : byte c = byte d := by
    simp only [isSign, Bool.and_eq_true, decide_eq_true_eq] at hc hd
    exact (List.cons.inj (hc.2.symm.trans hd.2)).1
  rcases hoffset with ⟨hplus, rfl⟩ | ⟨hminus, rfl⟩
  · obtain ⟨hvalue, hfits⟩ := (evaluateTokens_eq_ok hvalueless hs hsyms hx).1 hn
    exact ⟨n, hfits, rfl, fun hminus => absurd (hne hplus hminus) (by decide), fun _ => hvalue⟩
  · have hnil : e ≠ [] := (isExpression_of_negate hexpr).1
    obtain ⟨hvalue, hfits⟩ := (evaluateTokens_negate hs hnil hsyms hx).1 hn
    exact ⟨n, hfits, rfl, fun _ => hvalue, fun hplus => absurd (hne hplus hminus) (by decide)⟩

end Operand

namespace Assembler

variable {asm : Assembler} {name text : Bytes} {a : Assembly}

/-- Tokens of an accepted program have no value, but for literals and label uses. -/
theorem value?_eq_none_of_accepts (h : asm.Accepts name text a) {l : Line} (hl : l ∈ a.lines)
    {t : Token} (ht : t ∈ l.tokens) (hk : Lexer.isValueless t.kind = true) : t.value? = none := by
  obtain ⟨mode, hscanned⟩ := exists_scanned h l hl
  obtain ⟨u, hu, hbare⟩ := List.mem_map.1 (hscanned.tokens_eq ▸ List.mem_map_of_mem ht)
  have hkind : u.kind = t.kind := by rw [← Token.bare_kind, hbare, Token.bare_kind]
  have hnone := (valued_of_lex mode l.text u hu).valueless (by rw [hkind, hk])
  have hvalue : t.bare.value = u.bare.value := by rw [hbare]
  have huse : t.kind ≠ .labelUse := by
    rintro huse
    rw [huse] at hk
    cases hk
  simp only [Token.bare, hkind, huse, if_false] at hvalue
  rw [Lexeme.value?, hvalue, hnone]
  rfl

/-- The word for an address of a register and an offset, in a program that is accepted. The text `s`
of the offset, with values in place of literals and labels, writes an expression. Behind a plus the
word is the value of `0+s`. Behind a minus it is the value of `0-(s)`, and that of `0-s` if there
are no operators outside parentheses in `s` but multiplication and division. -/
theorem offset_word (ha : asm.Accepts name text a) {l : Line} (hl : l ∈ a.lines)
    {ts e : List Token} {r sign : Token} (hts : ∀ t ∈ ts, t ∈ l.tokens)
    (hb : Operand.Bracketed (r :: sign :: e) ts) (hr : r.kind = .register) {side : Side}
    {o : Operand} {ws : List UInt16} (ho : Operand.parse ts side = .ok o) (hws : o.encode = .ok ws)
    {s : Bytes} {x : Expr} (hs : expressionText e = .ok s) (hx : Writes 0 s x) :
    ∃ n, ws = [UInt16.ofInt n] ∧
      (Operand.isSign '+' sign → evaluate ("0+" ++ s) = .ok n) ∧
      (Operand.isSign '-' sign → evaluate ("0-(" ++ s ++ ")") = .ok n ∧
        (Writes 4 s x → evaluate ("0-" ++ s) = .ok n)) := by
  obtain ⟨syms, hsyms, hderives⟩ := hx.exists_spelled
  have hvalueless : ∀ t ∈ e, Lexer.isValueless t.kind = true → t.value? = none := fun t ht =>
    value?_eq_none_of_accepts ha hl (hts t (hb.mem (by simp [ht])))
  obtain ⟨n, hfits, rfl, hminus, hplus⟩ :=
    (Operand.form_of_parse ho).offset_spec hb hr hvalueless hws hs hsyms hderives
  have hsub {syms : List Symbol} {s : Bytes} (hs : Spelled syms s) (hd : Derives 4 syms x)
      (hn : x.value? = some (-n)) : evaluate ("0-" ++ s) = .ok n := by
    refine ((hs.zero_sign .sub).evaluate_eq_ok (hd.zero_sign .sub rfl (by decide))).2 ⟨?_, hfits⟩
    rw [value?_zero_sub, hn, Option.map_some, Int.neg_neg]
  refine ⟨n, rfl, fun hsign => ?_, fun hsign => ⟨?_, fun hterm => ?_⟩⟩
  · obtain ⟨y, hy, hvalue⟩ := hderives.zero_plus (by decide)
    refine ((hsyms.zero_sign .add).evaluate_eq_ok hy).2 ⟨?_, hfits⟩
    rw [hvalue, hplus hsign]
  · exact hsub hsyms.paren (.paren hderives) (hminus hsign)
  · obtain ⟨syms', hsyms', hterm⟩ := hterm.exists_spelled
    exact hsub hsyms' hterm (hminus hsign)

/-- The tokens of `[B-2*end]` where the label has the address 2. -/
def sampleOffset : List (Kind × Bytes × Option Int) :=
  [(.addressStart, "[", none), (.register, "B", none), (.operator, "-", none),
    (.literal, "2", some 2), (.operator, "*", none), (.labelUse, "end", some 2),
    (.addressEnd, "]", none)]

/-- A product with a label behind a minus. -/
theorem sample_offset_word : ∃ a l o n, ({} : Assembler).Accepts "main" "SET A, [B-2*end]\nend:" a ∧
    l ∈ a.lines ∧ (l.significant.drop 3).map (fun t => (t.kind, t.text, t.value?)) = sampleOffset ∧
    Operand.parse (l.significant.drop 3) .a = .ok o ∧ o.encode = .ok [0xfffc] ∧
    evaluate ("0-" ++ "2 * 2 ") = .ok n ∧ UInt16.ofInt n = 0xfffc := by
  obtain ⟨a, ha, h⟩ := exists_accepts {} "main" "SET A, [B-2*end]\nend:"
    (fun a => a.lines.head?.any fun l =>
      (l.significant.drop 3).map (fun t => (t.kind, t.text, t.value?)) == sampleOffset &&
      (Operand.parse (l.significant.drop 3) .a).toOption.any fun o =>
        o.encode.toOption == some [0xfffc]) (by decide +kernel)
  obtain ⟨l, hl, h⟩ := (Option.any_eq_true _ _).1 h
  obtain ⟨htokens, h⟩ := Bool.and_eq_true_iff.1 h
  obtain ⟨o, ho, hword⟩ := exists_ok h
  have hmem : ∀ t ∈ l.significant.drop 3, t ∈ l.tokens := fun t ht =>
    List.mem_of_mem_filter (List.mem_of_mem_drop ht)
  have hws : o.encode = .ok [0xfffc] := by
    cases he : o.encode with
    | error => simp [he, Except.toOption] at hword
    | ok ws => simpa [he, Except.toOption] using hword
  have hline := List.mem_of_head? hl
  have hall := beq_iff_eq.1 htokens
  have hshape := hall
  simp only [sampleOffset, List.map_eq_cons_iff, List.map_eq_nil_iff, Prod.mk.injEq] at hshape
  obtain ⟨opening, _, hts, ⟨hopen, -⟩, r, _, rfl, ⟨hr, -⟩, sign, _, rfl, ⟨hsign, hminus, -⟩, t, _,
    rfl, ⟨hk, -, hv⟩, times, _, rfl, ⟨hk', htext, -⟩, u, _, rfl, ⟨hk'', -, hv''⟩, closing, _, rfl,
    ⟨hclose, -⟩, rfl⟩ := hshape
  have hb : Operand.Bracketed (r :: sign :: [t, times, u]) (l.significant.drop 3) :=
    ⟨opening, closing, hopen, hclose, hts⟩
  have hs : expressionText [t, times, u] = .ok "2 * 2 " := by
    simp only [expressionText, hk, hv, hk', htext, hk'', hv'']
    rfl
  have htwo : Literal "2" 2 := literal_decimal 2
  have hgap : IsGap " " := fun c hc => Or.inl (List.mem_singleton.1 hc)
  have hterm : Writes 4 "2 * 2 " (.binary .mul (.literal 2) (.literal 2)) :=
    .binary (Nat.le_refl Operator.mul.rank) (.spaced isGap_nil (.literal htwo (by decide)) hgap)
      (.spaced hgap (.literal htwo (by decide)) hgap)
  have hx : Writes 0 "2 * 2 " (.binary .mul (.literal 2) (.literal 2)) := by
    obtain ⟨syms, hsyms, hd⟩ := hterm.exists_spelled
    exact (hd.mono (Nat.zero_le 4)).writes hsyms
  obtain ⟨n, hn, -, hvalue⟩ := offset_word ha hline hmem hb hr ho hws hs hx
  have hsub := (hvalue (by simp [Operand.isSign, hsign, hminus]; rfl)).2 hterm
  exact ⟨a, l, o, n, ha, hline, hall, ho, hws, hsub, (List.cons.inj hn).1.symm⟩

/-- Behind a minus, a sum has its last term added that should be subtracted : the word for `[B-1-2]`
is the value of `0-(1-2)`, not of `0-1-2`. -/
theorem offset_word_ne_left : ∃ a, ({} : Assembler).Accepts "main" "SET A, [B-1-2]" a ∧
    a.lines.map Line.encoded = [[0x4401, 1]] ∧ evaluate "0-1-2" = .ok (-3) ∧
      UInt16.ofInt (-3) ≠ 1 := by
  obtain ⟨a, ha, h⟩ := exists_accepts {} "main" "SET A, [B-1-2]"
    (fun a => a.lines.map Line.encoded == [[0x4401, 1]]) (by decide +kernel)
  obtain ⟨n, hn, hv⟩ : ∃ n, evaluate "0-1-2" = .ok n ∧ decide (n = -3) = true :=
    exists_ok (by decide +kernel)
  rw [of_decide_eq_true hv] at hn
  exact ⟨a, ha, beq_iff_eq.1 h, hn, by decide⟩

end Assembler

end Asm16
