import Asm16.Log
import Asm16.Operand

/-!
# The forms of operands

`Operand.Form` is the grammar of operands as a relation, one constructor for each way to write one.
`Operand.form_of_parse` says that the parser finds nothing else, and `Operand.Form.parse_eq` that it
finds everything of one of the forms. What is true of every operand is proved from there, case by
case; here it is that the label uses of an operand are tokens of its line
(`Instruction.labelUse_mem_of_parse`).
-/

namespace Asm16

/-! ## Expressions -/

/-- Whether arithmetic is written with tokens of a kind. -/
def Kind.isArithmetic : Kind → Bool
  | literal | labelUse | operator | unaryOperator | groupStart | groupEnd => true
  | _ => false

/-- Tokens that hold arithmetic and nothing else. -/
def IsExpression (ts : List Token) : Prop := ts ≠ [] ∧ ∀ t ∈ ts, t.kind.isArithmetic

theorem expressionFault?_eq_none {t : Token} : expressionFault? t = none ↔ t.kind.isArithmetic := by
  unfold expressionFault? Kind.isArithmetic
  cases t.kind <;> simp

theorem checkExpression_eq_ok {ts : List Token} :
    checkExpression ts = .ok () ↔ IsExpression ts := by
  unfold checkExpression IsExpression
  by_cases hts : ts = []
  · simp [hts]
  · cases hf : ts.findSome? expressionFault? with
    | some fault =>
      obtain ⟨t, ht, hft⟩ := List.exists_of_findSome?_eq_some hf
      have hbad : ¬t.kind.isArithmetic := by rw [← expressionFault?_eq_none, hft]; simp
      simpa [hts] using ⟨t, ht, by simpa using hbad⟩
    | none =>
      have hall := List.findSome?_eq_none_iff.1 hf
      simpa [hts] using fun t ht => expressionFault?_eq_none.1 (hall t ht)

theorem IsExpression.kind_ne {ts : List Token} (he : IsExpression ts) {t : Token} (ht : t ∈ ts)
    {k : Kind} (hk : k.isArithmetic = false) : t.kind ≠ k := by
  rintro rfl
  rw [he.2 t ht] at hk
  cases hk

/-! ## Operands -/

namespace Operand

/-- The inside of an address, its register, and the arithmetic added to the register. -/
inductive Offset : List Token → Token → List Token → Prop
  | plus {r sign : Token} {e : List Token} (hr : r.kind = .register) (hs : isSign '+' sign) :
      Offset (r :: sign :: e) r e
  | minus {r sign : Token} {e : List Token} (hr : r.kind = .register) (hs : isSign '-' sign) :
      Offset (r :: sign :: e) r (negate e)
  | behind {r sign : Token} {e : List Token} (hr : r.kind = .register) (hs : isSign '+' sign) :
      Offset (e ++ [sign, r]) r e

/-- Tokens in brackets. -/
def Bracketed (inner ts : List Token) : Prop :=
  ∃ opening closing : Token, opening.kind = .addressStart ∧ closing.kind = .addressEnd ∧
    ts = opening :: (inner ++ [closing])

/-- The ways to write an operand. -/
inductive Form (side : Side) : List Token → Operand → Prop
  | register {r : Token} (hr : r.kind = .register) : Form side [r] ⟨registerCode r, none⟩
  | peek {t : Token} (ht : t.kind = .stackAccess) (hw : Bytes.upper t.text = "PEEK") :
      Form side [t] ⟨.peek, none⟩
  | pushPop {t : Token} (ht : t.kind = .stackAccess) (hw : Bytes.upper t.text = stackWord side) :
      Form side [t] ⟨.pushPop, none⟩
  | pick {first last : Token} {e : List Token} (hf : first.kind = .pickStart)
      (hl : last.kind = .pickEnd) (he : IsExpression e) :
      Form side (first :: (e ++ [last])) ⟨.pick, some e⟩
  | atRegister {ts : List Token} {r : Token} {g : Register} (hb : Bracketed [r] ts)
      (hr : r.kind = .register) (hg : (registerCode r).general? = some g) :
      Form side ts ⟨.atRegister g, none⟩
  | atStack {ts : List Token} {r : Token} (hb : Bracketed [r] ts) (hr : r.kind = .register)
      (hs : registerCode r = .sp) : Form side ts ⟨.peek, none⟩
  | atNext {ts e : List Token} (hb : Bracketed e ts) (he : IsExpression e) :
      Form side ts ⟨.atNext, some e⟩
  | atRegisterPlus {ts inner e : List Token} {r : Token} {g : Register} (hb : Bracketed inner ts)
      (ho : Offset inner r e) (he : IsExpression e) (hg : (registerCode r).general? = some g) :
      Form side ts ⟨.atRegisterPlus g, some e⟩
  | atStackPlus {ts inner e : List Token} {r : Token} (hb : Bracketed inner ts)
      (ho : Offset inner r e) (he : IsExpression e) (hs : registerCode r = .sp) :
      Form side ts ⟨.pick, some e⟩
  | short {ts : List Token} {code : OperandCode} (he : IsExpression ts)
      (hc : shortCode? side ts = some code) : Form side ts ⟨code, none⟩
  | expression {ts : List Token} (he : IsExpression ts) (hc : shortCode? side ts = none) :
      Form side ts ⟨.next, some ts⟩

variable {side : Side} {ts inner : List Token} {o : Operand}

/-- A bracket that closes at the last token has one to close at. -/
theorem eq_append_of_closesLast {depth : Int} (h : closesLast depth ts) :
    ∃ closing : Token, closing.kind = .addressEnd ∧ ts = ts.dropLast ++ [closing] := by
  induction ts generalizing depth with
  | nil => cases h
  | cons t rest ih =>
    have step {d : Int} (h : closesLast d rest) : ∃ closing : Token, closing.kind = .addressEnd ∧
        t :: rest = (t :: rest).dropLast ++ [closing] := by
      obtain ⟨closing, hk, heq⟩ := ih h
      rw [heq, ← List.cons_append, List.dropLast_concat]
      exact ⟨closing, hk, rfl⟩
    unfold closesLast at h
    split at h
    · exact step h
    · split at h
      · rename_i hend
        split at h
        · obtain rfl := List.isEmpty_iff.1 h
          exact ⟨t, hend, rfl⟩
        · exact step h
      · exact step h

theorem offset_of_offsetForm? {r : Token} {e : List Token} (h : offsetForm? inner = some e)
    (hr : inner.filter (·.kind == .register) = [r]) : Offset inner r e := by
  have hmem {t : Token} (ht : t ∈ inner) (hk : t.kind = .register) : t = r := by
    have : t ∈ inner.filter (·.kind == .register) := List.mem_filter.2 ⟨ht, by simp [hk]⟩
    simpa [hr] using this
  unfold offsetForm? at h
  split at h
  · rename_i first sign rest
    split at h
    · rename_i hk
      obtain rfl := hmem List.mem_cons_self hk
      split at h
      · obtain rfl := Option.some.inj h
        exact .plus hk ‹_›
      · split at h
        · obtain rfl := Option.some.inj h
          exact .minus hk ‹_›
        · cases h
    · split at h
      · rename_i last sign' front hrev
        split at h
        · rename_i hk
          have hinner : first :: sign :: rest = front.reverse ++ [sign', last] := by
            rw [← List.reverse_reverse (first :: sign :: rest), hrev]
            simp
          obtain rfl := Option.some.inj h
          obtain rfl := hmem (by rw [hinner]; simp) hk.1
          rw [hinner]
          exact .behind hk.1 hk.2
        · cases h
      · cases h
  · cases h

theorem form_of_parseAddress (hb : Bracketed inner ts) (h : parseAddress inner = .ok o) :
    Form side ts o := by
  unfold parseAddress at h
  split at h
  · obtain ⟨_, hcheck, h⟩ := bind_eq_ok.1 h
    obtain rfl := Except.ok.inj h
    exact .atNext hb (checkExpression_eq_ok.1 hcheck)
  · rename_i r hr
    have hmem : r ∈ inner.filter (·.kind == .register) := by
      rw [hr]
      exact List.mem_singleton_self r
    have hk : r.kind = .register := by simpa using (List.mem_filter.1 hmem).2
    simp only at h
    split at h
    · rename_i hlen
      obtain ⟨r', rfl⟩ := List.length_eq_one_iff.1 hlen
      obtain rfl := List.mem_singleton.1 (List.mem_filter.1 hmem).1
      split at h
      · obtain rfl := Except.ok.inj h
        exact .atRegister hb hk ‹_›
      · split at h
        · obtain rfl := Except.ok.inj h
          exact .atStack hb hk ‹_›
        · cases h
    · split at h
      · cases h
      · rename_i offset ho
        obtain ⟨_, hcheck, h⟩ := bind_eq_ok.1 h
        have he := checkExpression_eq_ok.1 hcheck
        have hoff := offset_of_offsetForm? ho hr
        split at h
        · obtain rfl := Except.ok.inj h
          exact .atRegisterPlus hb hoff he ‹_›
        · split at h
          · obtain rfl := Except.ok.inj h
            exact .atStackPlus hb hoff he ‹_›
          · cases h
  · cases h

theorem form_of_parseStack {t : Token} (ht : t.kind = .stackAccess)
    (h : parseStack (Bytes.upper t.text) side = .ok o) : Form side [t] o := by
  unfold parseStack at h
  split at h
  · obtain rfl := Except.ok.inj h
    exact .peek ht ‹_›
  · split at h
    · obtain rfl := Except.ok.inj h
      exact .pushPop ht ‹_›
    · cases h

theorem form_of_parseExpression (h : parseExpression ts side = .ok o) : Form side ts o := by
  obtain ⟨_, hcheck, h⟩ := bind_eq_ok.1 h
  have he := checkExpression_eq_ok.1 hcheck
  split at h
  · obtain rfl := Except.ok.inj h
    exact .short he ‹_›
  · obtain rfl := Except.ok.inj h
    exact .expression he ‹_›

/-- An operand that the parser finds has one of the forms. -/
theorem form_of_parse (h : parse ts side = .ok o) : Form side ts o := by
  unfold parse at h
  split at h
  · cases h
  · rename_i first rest
    split at h
    · rename_i hlone
      obtain ⟨hrest, hk⟩ := hlone
      obtain rfl := List.isEmpty_iff.1 hrest
      obtain rfl := Except.ok.inj h
      exact .register hk
    · split at h
      · rename_i hlone
        obtain ⟨hrest, hk⟩ := hlone
        obtain rfl := List.isEmpty_iff.1 hrest
        exact form_of_parseStack hk h
      · split at h
        · rename_i hk
          split at h
          · rename_i hlast
            obtain ⟨_, hcheck, h⟩ := bind_eq_ok.1 h
            obtain rfl := Except.ok.inj h
            obtain ⟨last, hl, hlk⟩ := (Option.any_eq_true ..).1 hlast
            have hne : rest ≠ [] := by
              rintro rfl
              obtain rfl : first = last := by simpa using hl
              simp [hk] at hlk
            rw [List.getLast?_cons_of_ne_nil hne] at hl
            obtain ⟨e, rfl⟩ := List.getLast?_eq_some_iff.1 hl
            rw [List.dropLast_concat] at hcheck ⊢
            exact .pick hk (by simpa using hlk) (checkExpression_eq_ok.1 hcheck)
          · cases h
        · split at h
          · rename_i hbr
            obtain ⟨closing, hk, heq⟩ := eq_append_of_closesLast hbr.2
            exact form_of_parseAddress ⟨first, closing, hbr.1, hk, by rw [← heq]⟩ h
          · exact form_of_parseExpression h

theorem closesLast_append {closing : Token}
    (hi : ∀ t ∈ inner, t.kind ≠ .addressStart ∧ t.kind ≠ .addressEnd)
    (hc : closing.kind = .addressEnd) : closesLast 1 (inner ++ [closing]) = true := by
  induction inner with
  | nil => simp [closesLast, hc]
  | cons t rest ih =>
    obtain ⟨ht, hrest⟩ := List.forall_mem_cons.1 hi
    rw [List.cons_append, closesLast, if_neg ht.1, if_neg ht.2]
    exact ih hrest

/-- Tokens in brackets are an address, unless there are brackets among them. -/
theorem Bracketed.parse_eq (hb : Bracketed inner ts)
    (hi : ∀ t ∈ inner, t.kind ≠ .addressStart ∧ t.kind ≠ .addressEnd) :
    parse ts side = parseAddress inner := by
  obtain ⟨opening, closing, ho, hc, rfl⟩ := hb
  simp [parse, ho, closesLast_append hi hc]

theorem kind_of_isSign {c : Char} {t : Token} (h : isSign c t) : t.kind = .operator := by
  simpa using (Bool.and_eq_true_iff.1 h).1

theorem isExpression_of_negate (h : IsExpression (negate ts)) : IsExpression ts := by
  have hne : ts ≠ [] := by
    rintro rfl
    exact h.1 rfl
  refine ⟨hne, fun t ht => h.2 t ?_⟩
  simp [negate, hne, ht]

/-- An address with an offset, and arithmetic beside the register. -/
theorem Offset.exists_split {r : Token} {e : List Token} (h : Offset inner r e)
    (he : IsExpression e) : ∃ front back, inner = front ++ r :: back ∧ r.kind = .register ∧
      ∀ t ∈ front ++ back, t.kind.isArithmetic := by
  have hsign {c : Char} {t : Token} (h : isSign c t) : t.kind.isArithmetic := by
    rw [kind_of_isSign h]
    rfl
  cases h with
  | @plus r sign e hr hs =>
    exact ⟨[], sign :: e, rfl, hr, List.forall_mem_cons.2 ⟨hsign hs, he.2⟩⟩
  | @minus r sign e hr hs =>
    have he := isExpression_of_negate he
    exact ⟨[], sign :: e, rfl, hr, List.forall_mem_cons.2 ⟨hsign hs, he.2⟩⟩
  | @behind r sign e hr hs =>
    refine ⟨e ++ [sign], [], by simp, hr, ?_⟩
    rw [List.append_nil]
    exact List.forall_mem_append.2 ⟨he.2, List.forall_mem_singleton.2 (hsign hs)⟩

theorem Offset.offsetForm?_eq {r : Token} {e : List Token} (h : Offset inner r e)
    (he : IsExpression e) : offsetForm? inner = some e := by
  cases h with
  | plus hr hs => simp [offsetForm?, hr, hs]
  | @minus _ sign e hr hs =>
    have htext : sign.text = [byte '-'] := by simpa using (Bool.and_eq_true_iff.1 hs).2
    have hplus : isSign '+' sign = false := by simp [isSign, htext]
    simp [offsetForm?, hr, hs, hplus]
  | @behind _ sign e hr hs =>
    obtain ⟨t, rest, rfl⟩ := List.exists_cons_of_ne_nil he.1
    have ht : t.kind ≠ .register := he.kind_ne List.mem_cons_self rfl
    cases rest with
    | nil => simp [offsetForm?, ht, hr, hs]
    | cons u rest => simp [offsetForm?, ht, hr, hs]

theorem filter_register_eq_nil (h : ∀ t ∈ ts, t.kind.isArithmetic) :
    ts.filter (·.kind == .register) = [] := by
  refine List.filter_eq_nil_iff.2 fun t ht hk => ?_
  have harith := h t ht
  rw [beq_iff_eq.1 hk] at harith
  cases harith

/-- An address with an offset is found by its register, the only one. -/
theorem Offset.parse_eq {r : Token} {e : List Token} (h : Offset inner r e) (he : IsExpression e)
    (hb : Bracketed inner ts) : parse ts side =
      match (registerCode r).general? with
      | some g => .ok ⟨.atRegisterPlus g, some e⟩
      | none => if registerCode r = .sp then .ok ⟨.pick, some e⟩ else .error .register := by
  have hform := h.offsetForm?_eq he
  obtain ⟨front, back, rfl, hr, harith⟩ := h.exists_split he
  obtain ⟨hfront, hback⟩ := List.forall_mem_append.1 harith
  have hlen : (front ++ r :: back).length ≠ 1 := by
    intro hlen
    obtain ⟨t, ht⟩ := List.length_eq_one_iff.1 hlen
    rw [ht] at hform
    cases hform
  have hbrackets : ∀ t ∈ front ++ r :: back, t.kind ≠ .addressStart ∧ t.kind ≠ .addressEnd := by
    intro t ht
    have hkind : t.kind = .register ∨ t.kind.isArithmetic := by
      rcases List.mem_append.1 ht with ht | ht
      · exact .inr (hfront t ht)
      · rcases List.mem_cons.1 ht with rfl | ht
        · exact .inl hr
        · exact .inr (hback t ht)
    constructor <;> intro hk <;> rw [hk] at hkind <;> revert hkind <;> decide
  have hfilter : (front ++ r :: back).filter (·.kind == .register) = [r] := by
    simp [hr, filter_register_eq_nil hfront, filter_register_eq_nil hback]
  rw [hb.parse_eq hbrackets, parseAddress, hfilter]
  simp only [if_neg hlen, hform]
  rw [checkExpression_eq_ok.2 he]
  rfl

theorem parse_of_isExpression (he : IsExpression ts) : parse ts side =
    match shortCode? side ts with
    | some code => .ok ⟨code, none⟩
    | none => .ok ⟨.next, some ts⟩ := by
  have hfirst : parse ts side = parseExpression ts side := by
    obtain ⟨t, rest, rfl⟩ := List.exists_cons_of_ne_nil he.1
    have hne {k : Kind} (hk : k.isArithmetic = false) : t.kind ≠ k :=
      he.kind_ne List.mem_cons_self hk
    simp [parse, hne (k := .register) rfl, hne (k := .stackAccess) rfl, hne (k := .pickStart) rfl,
      hne (k := .addressStart) rfl]
  rw [hfirst]
  unfold parseExpression
  rw [checkExpression_eq_ok.2 he]
  rfl

theorem Form.ne_nil (h : Form side ts o) : ts ≠ [] := by
  have hbracketed {inner : List Token} (hb : Bracketed inner ts) : ts ≠ [] := by
    obtain ⟨opening, closing, -, -, rfl⟩ := hb
    exact List.cons_ne_nil _ _
  cases h with
  | register | peek | pushPop | pick => exact List.cons_ne_nil _ _
  | atRegister hb | atStack hb | atNext hb | atRegisterPlus hb | atStackPlus hb =>
    exact hbracketed hb
  | short he | expression he => exact he.1

/-- What has one of the forms is found by the parser. -/
theorem Form.parse_eq (h : Form side ts o) : parse ts side = .ok o := by
  cases h with
  | register hr => simp [parse, hr]
  | peek ht hw => simp [parse, ht, hw, parseStack]
  | pushPop ht hw =>
    have hmoving : parseStack (stackWord side) side = .ok ⟨.pushPop, none⟩ := by
      cases side <;> rfl
    simp [parse, ht, hw, hmoving]
  | @pick first last e hf hl he =>
    have hlast : (first :: (e ++ [last])).getLast? = some last :=
      List.getLast?_concat (l := first :: e)
    simp [parse, hf, hl, hlast, checkExpression_eq_ok.2 he]
  | atRegister hb hr hg =>
    rw [hb.parse_eq (by simp [hr])]
    simp [parseAddress, hr, hg]
  | atStack hb hr hs =>
    rw [hb.parse_eq (by simp [hr])]
    have hsp : OperandCode.sp.general? = none := rfl
    simp [parseAddress, hr, hs, hsp]
  | atNext hb he =>
    have hnone := filter_register_eq_nil he.2
    rw [hb.parse_eq fun t ht => ⟨he.kind_ne ht rfl, he.kind_ne ht rfl⟩, parseAddress, hnone]
    simp only [checkExpression_eq_ok.2 he]
    rfl
  | atRegisterPlus hb ho he hg => rw [ho.parse_eq he hb, hg]
  | atStackPlus hb ho he hs =>
    rw [ho.parse_eq he hb, hs]
    rfl
  | short he hc => rw [parse_of_isExpression he, hc]
  | expression he hc => rw [parse_of_isExpression he, hc]

/-! ## The label uses of an operand -/

/-- The label uses in the expression of an operand. -/
def labelUses (o : Operand) : List Token := (o.expr.getD []).filter (·.kind == .labelUse)

/-- The kinds of the tokens that are put around an offset that is taken off. -/
def isFrame : Kind → Bool
  | .unaryOperator | .groupStart | .groupEnd => true
  | _ => false

theorem Offset.mem_or {r : Token} {e : List Token} (h : Offset inner r e) {t : Token}
    (ht : t ∈ e) : t ∈ inner ∨ isFrame t.kind = true := by
  cases h with
  | plus => exact .inl (List.mem_cons_of_mem _ (List.mem_cons_of_mem _ ht))
  | behind => exact .inl (List.mem_append_left _ ht)
  | @minus _ sign e =>
    unfold negate at ht
    split at ht
    · cases ht
    · simp only [List.mem_append, List.mem_cons, List.not_mem_nil, or_false] at ht
      rcases ht with ((rfl | rfl) | ht) | rfl
      · exact .inr rfl
      · exact .inr rfl
      · exact .inl (List.mem_cons_of_mem _ (List.mem_cons_of_mem _ ht))
      · exact .inr rfl

theorem Bracketed.mem (h : Bracketed inner ts) {t : Token} (ht : t ∈ inner) : t ∈ ts := by
  obtain ⟨opening, closing, -, -, rfl⟩ := h
  exact List.mem_cons_of_mem _ (List.mem_append_left _ ht)

/-- The expression of an operand is made of its tokens, perhaps with a sign and parentheses around
them. -/
theorem Form.expr_spec {e : List Token} (h : Form side ts o) (he : o.expr = some e) :
    IsExpression e ∧ ∀ t ∈ e, t ∈ ts ∨ isFrame t.kind = true := by
  cases h with
  | register | peek | pushPop | atRegister | atStack | short => cases he
  | pick _ _ hexpr =>
    obtain rfl := Option.some.inj he
    exact ⟨hexpr, fun t ht => .inl (List.mem_cons_of_mem _ (List.mem_append_left _ ht))⟩
  | atNext hb hexpr =>
    obtain rfl := Option.some.inj he
    exact ⟨hexpr, fun t ht => .inl (hb.mem ht)⟩
  | atRegisterPlus hb ho hexpr | atStackPlus hb ho hexpr =>
    obtain rfl := Option.some.inj he
    exact ⟨hexpr, fun t ht => (ho.mem_or ht).imp_left hb.mem⟩
  | expression hexpr =>
    obtain rfl := Option.some.inj he
    exact ⟨hexpr, fun t ht => .inl ht⟩

/-- The label uses of an operand are among the tokens it is written with. -/
theorem Form.labelUse_mem (h : Form side ts o) {t : Token} (ht : t ∈ o.labelUses) : t ∈ ts := by
  obtain ⟨ht, hk⟩ := List.mem_filter.1 ht
  replace hk : t.kind = .labelUse := by simpa using hk
  cases hexpr : o.expr with
  | none =>
    rw [hexpr] at ht
    cases ht
  | some e =>
    rw [hexpr] at ht
    rcases (h.expr_spec hexpr).2 t ht with hmem | hframe
    · exact hmem
    · rw [hk] at hframe
      cases hframe

end Operand

/-! ## Instructions -/

namespace Instruction

/-- The ways to write the operands of an opcode. -/
inductive Form (rest : List Token) : Shape → Instruction → Prop
  | two {op : BasicOp} {forB forA : List Token} {b a : Operand}
      (hr : operandRuns rest = [forB, forA]) (hb : Operand.Form .b forB b)
      (ha : Operand.Form .a forA a) : Form rest (.two op) (basic op b a)
  | jump {op : BasicOp} {forA : List Token} {a : Operand} (hr : operandRuns rest = [forA])
      (ha : Operand.Form .a forA a) : Form rest (.jump op) (basic op ⟨.pc, none⟩ a)
  | one {op : SpecialOp} {forA : List Token} {a : Operand} (hr : operandRuns rest = [forA])
      (ha : Operand.Form .a forA a) : Form rest (.one op) (special op a)

variable {text : Bytes} {ts : List Token} {c : Instruction}

theorem form_of_parseOperand {side : Side} {o : Operand} (h : parseOperand text ts side = .ok o) :
    Operand.Form side ts o := by
  unfold parseOperand at h
  split at h
  · obtain rfl := Except.ok.inj h
    exact Operand.form_of_parse ‹_›
  · cases h

/-- An instruction that the parser finds has one of the forms. -/
theorem form_of_parse (h : parse text ts = .ok (some c)) :
    ∃ opcode rest shape, ts.dropWhile (·.kind == .labelDef) = opcode :: rest ∧
      shape? opcode = some shape ∧ Form rest shape c := by
  unfold parse at h
  split at h
  · cases h
  · rename_i opcode rest hts
    simp only at h
    refine ⟨opcode, rest, ?_⟩
    split at h
    · cases h
    · rename_i op forB forA hshape hr
      obtain ⟨b, hb, h⟩ := bind_eq_ok.1 h
      obtain ⟨a, ha, h⟩ := bind_eq_ok.1 h
      obtain rfl := Option.some.inj (Except.ok.inj h)
      exact ⟨_, hts, hshape, .two hr (form_of_parseOperand hb) (form_of_parseOperand ha)⟩
    · rename_i op forA hshape hr
      obtain ⟨a, ha, h⟩ := bind_eq_ok.1 h
      obtain rfl := Option.some.inj (Except.ok.inj h)
      exact ⟨_, hts, hshape, .jump hr (form_of_parseOperand ha)⟩
    · rename_i op forA hshape hr
      obtain ⟨a, ha, h⟩ := bind_eq_ok.1 h
      obtain rfl := Option.some.inj (Except.ok.inj h)
      exact ⟨_, hts, hshape, .one hr (form_of_parseOperand ha)⟩
    · cases h

/-- What has one of the forms is found by the parser. -/
theorem Form.parse_eq {opcode : Token} {rest : List Token} {shape : Shape}
    (h : Form rest shape c) (hs : shape? opcode = some shape)
    (hts : ts.dropWhile (·.kind == .labelDef) = opcode :: rest) :
    parse text ts = .ok (some c) := by
  have hparse {run : List Token} {side : Side} {o : Operand} (h : Operand.Form side run o) :
      parseOperand text run side = .ok o := by
    rw [parseOperand, h.parse_eq]
  cases h with
  | two hr hb ha => simp only [parse, hts, hs, hr, hparse hb, hparse ha, ok_bind]
  | jump hr ha => simp only [parse, hts, hs, hr, hparse ha, ok_bind]
  | one hr ha => simp only [parse, hts, hs, hr, hparse ha, ok_bind]

/-- Tokens without a separator are one run. -/
theorem operandRuns_single {ts : List Token} (hne : ts ≠ []) (h : ∀ t ∈ ts, t.kind ≠ .separator) :
    operandRuns ts = [ts] := by
  rw [operandRuns, if_neg (by simpa using hne)]
  clear hne
  induction ts with
  | nil => rfl
  | cons t rest ih =>
    obtain ⟨ht, hrest⟩ := List.forall_mem_cons.1 h
    rw [List.foldr_cons, ih hrest, if_neg ht]

/-- A run ends at a separator. -/
theorem operandRuns_append {ts rest : List Token} {sep : Token} (hrest : rest ≠ [])
    (h : ∀ t ∈ ts, t.kind ≠ .separator) (hs : sep.kind = .separator) :
    operandRuns (ts ++ sep :: rest) = ts :: operandRuns rest := by
  rw [operandRuns, operandRuns, if_neg (by simp), if_neg (by simpa using hrest), List.foldr_append,
    List.foldr_cons, if_pos hs]
  clear hrest
  induction ts with
  | nil => rfl
  | cons t rest ih =>
    obtain ⟨ht, hrest⟩ := List.forall_mem_cons.1 h
    rw [List.foldr_cons, ih hrest, if_neg ht]

/-- The label uses in the operands of an instruction. -/
def labelUses : Instruction → List Token
  | basic _ b a => b.labelUses ++ a.labelUses
  | special _ a => a.labelUses

theorem mem_of_mem_operandRuns {run : List Token} {t : Token} (hr : run ∈ operandRuns ts)
    (ht : t ∈ run) : t ∈ ts := by
  unfold operandRuns at hr
  split at hr
  · cases hr
  · rename_i hne
    clear hne
    induction ts generalizing run with
    | nil =>
      obtain rfl := List.mem_singleton.1 hr
      cases ht
    | cons u rest ih =>
      rw [List.foldr_cons] at hr
      split at hr
      · rcases List.mem_cons.1 hr with rfl | hr
        · cases ht
        · exact List.mem_cons_of_mem _ (ih ht hr)
      · split at hr
        · rename_i first more hruns
          rw [hruns] at ih
          rcases List.mem_cons.1 hr with rfl | hr
          · rcases List.mem_cons.1 ht with rfl | ht
            · exact List.mem_cons_self
            · exact List.mem_cons_of_mem _ (ih ht List.mem_cons_self)
          · exact List.mem_cons_of_mem _ (ih ht (List.mem_cons_of_mem _ hr))
        · obtain rfl := List.mem_singleton.1 hr
          obtain rfl := List.mem_singleton.1 ht
          exact List.mem_cons_self

theorem Form.labelUse_mem {rest : List Token} {shape : Shape} (h : Form rest shape c) {t : Token}
    (ht : t ∈ c.labelUses) : t ∈ rest := by
  cases h with
  | two hr hb ha =>
    rcases List.mem_append.1 ht with ht | ht
    · exact mem_of_mem_operandRuns (by rw [hr]; exact List.mem_cons_self) (hb.labelUse_mem ht)
    · exact mem_of_mem_operandRuns (by rw [hr]; simp) (ha.labelUse_mem ht)
  | jump hr ha =>
    exact mem_of_mem_operandRuns (by rw [hr]; exact List.mem_cons_self) (ha.labelUse_mem ht)
  | one hr ha =>
    exact mem_of_mem_operandRuns (by rw [hr]; exact List.mem_cons_self) (ha.labelUse_mem ht)

/-- The label uses of an instruction are among the tokens of its line. -/
theorem labelUse_mem_of_parse (h : parse text ts = .ok (some c)) {t : Token}
    (ht : t ∈ c.labelUses) : t ∈ ts := by
  obtain ⟨opcode, rest, shape, hts, -, hform⟩ := form_of_parse h
  have hrest : t ∈ ts.dropWhile (·.kind == .labelDef) := by
    rw [hts]
    exact List.mem_cons_of_mem _ (hform.labelUse_mem ht)
  exact (List.dropWhile_sublist _).subset hrest

end Instruction

end Asm16
