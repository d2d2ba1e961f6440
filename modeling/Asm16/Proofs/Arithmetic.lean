import Asm16.Proofs.Spelling
import Mathlib.Data.Int.Bitwise
import Mathlib.Data.Rat.Floor

/-!
# Integer arithmetic

`Expr.value?` is the value of an expression over the unbounded integers. Quotients are exact
rational numbers, rounded toward zero by `/` and down by `//` and `>>`; a remainder is what a
rounded down quotient leaves. `Writes rank s e` says that a text writes an expression.

The program computes `/` from the other two : it adds one to the quotient that is rounded down if
there is a remainder and the signs differ, which truncates (`divide_eq`).

A tree has the value of the expression it stands for (`Tree.value_eq_ok`), so `evaluate` accepts a
text if the symbols it spells derive an expression with a value that fits (`evaluate_eq_ok`). These
are the texts that write the expression (`Writes.exists_spelled`, `Derives.writes`).
-/

namespace Asm16.Arith

open Numeral

/-! ## Values -/

/-- A rational number rounded toward zero. -/
def truncated (q : ℚ) : Int := if 0 ≤ q then ⌊q⌋ else ⌈q⌉

/-- The value of an operation; none for a divisor of zero or a shift out of range. -/
def Operator.result? : Operator → Int → Int → Option Int
  | or, x, y => some (x.lor y)
  | and, x, y => some (x.land y)
  | shiftLeft, x, y => if 0 ≤ y ∧ y < 512 then some (x * 2 ^ y.toNat) else none
  | shiftRight, x, y => if 0 ≤ y ∧ y < 2 ^ 31 then some ⌊(x : ℚ) / 2 ^ y.toNat⌋ else none
  | add, x, y => some (x + y)
  | sub, x, y => some (x - y)
  | mul, x, y => some (x * y)
  | div, x, y => if y = 0 then none else some (truncated ((x : ℚ) / y))
  | floorDiv, x, y => if y = 0 then none else some ⌊(x : ℚ) / y⌋
  | mod, x, y => if y = 0 then none else some (x - y * ⌊(x : ℚ) / y⌋)

/-- The value a sign gives. -/
def UnaryOp.apply : UnaryOp → Int → Int
  | .plus, x => x
  | .minus, x => -x
  | .complement, x => x.lnot

/-- The value of an expression, if every operation in it has one. -/
def Expr.value? : Expr → Option Int
  | literal n => some n
  | unary op x => x.value?.map op.apply
  | binary op x y =>
    match x.value?, y.value? with
    | some a, some b => op.result? a b
    | _, _ => none

theorem land_add_ldiff (a b : Nat) : (a &&& b) + a.ldiff b = a := by
  induction a using Nat.binaryRec generalizing b with
  | zero => simp [Nat.ldiff]
  | bit x a ih =>
    obtain ⟨y, b, rfl⟩ : ∃ y c, b = Nat.bit y c := ⟨b.bodd, b.div2, (Nat.bit_bodd_div2 b).symm⟩
    have hsum := ih b
    rw [Nat.land_bit, Nat.ldiff_bit]
    cases x <;> cases y <;> simp only [Nat.bit_val, Bool.and_true, Bool.and_false, Bool.not_true,
      Bool.not_false, Bool.toNat_true, Bool.toNat_false] <;> omega

theorem withoutBits_eq (a b : Nat) : withoutBits a b = a.ldiff b := by
  have hsum := land_add_ldiff a b
  unfold withoutBits
  omega

theorem bitAnd_eq (x y : Int) : bitAnd x y = x.land y := by
  cases x <;> cases y <;> simp [bitAnd, Int.land, withoutBits_eq]

theorem bitOr_eq (x y : Int) : bitOr x y = x.lor y := by
  cases x <;> cases y <;> simp [bitOr, Int.lor, withoutBits_eq]

theorem fdiv_eq_floor (x y : Int) : x.fdiv y = ⌊(x : ℚ) / y⌋ := by
  have hpos : ∀ (x : Int) (n : Nat), x.fdiv n = ⌊(x : ℚ) / n⌋ := by
    intro x n
    rw [Int.fdiv_eq_ediv_of_nonneg x (Int.natCast_nonneg n), Rat.floor_intCast_div_natCast]
  obtain ⟨n, rfl | rfl⟩ := y.eq_nat_or_neg
  · exact_mod_cast hpos x n
  · have hneg := hpos (-x) n
    rw [← Int.neg_fdiv_neg, neg_neg, hneg]
    push_cast
    rw [neg_div, div_neg]

theorem truncated_neg (q : ℚ) : truncated (-q) = -truncated q := by
  unfold truncated
  rcases lt_trichotomy q 0 with hq | rfl | hq
  · rw [if_pos (by linarith), if_neg (by linarith), Int.floor_neg]
  · simp
  · rw [if_neg (by linarith), if_pos hq.le, Int.ceil_neg]

theorem tdiv_eq_truncated (x y : Int) : x.tdiv y = truncated ((x : ℚ) / y) := by
  have hpos : ∀ m n : Nat, (m : Int).tdiv n = truncated ((m : ℚ) / n) := by
    intro m n
    rw [truncated, if_pos (by positivity), Rat.floor_natCast_div_natCast,
      Int.tdiv_eq_ediv_of_nonneg (Int.natCast_nonneg m)]
  obtain ⟨m, rfl | rfl⟩ := x.eq_nat_or_neg <;> obtain ⟨n, rfl | rfl⟩ := y.eq_nat_or_neg
  · rw [hpos, Int.cast_natCast, Int.cast_natCast]
  · rw [Int.tdiv_neg, hpos]
    push_cast
    rw [div_neg, truncated_neg]
  · rw [Int.neg_tdiv, hpos]
    push_cast
    rw [neg_div, truncated_neg]
  · rw [Int.neg_tdiv, Int.tdiv_neg, hpos]
    push_cast
    rw [neg_div_neg_eq, neg_neg]

/-- The quotient that `divide` makes from the rounded one is truncated. -/
theorem divide_eq (x y : Int) :
    divide x y = if y = 0 then .error .divisionByZero else .ok (x.tdiv y) := by
  unfold divide flooredQuotient flooredRemainder
  by_cases hy : y = 0
  · simp [hy]
  have hsign : (x.fmod y).sign = 0 ↔ y ∣ x := by
    rw [Int.sign_eq_zero_iff_zero, Int.dvd_iff_fmod_eq_zero]
  simp only [if_neg hy, ok_bind, ne_eq, hsign]
  congr 1
  rw [Int.tdiv_eq_fdiv]
  by_cases hdvd : y ∣ x
  · simp [hdvd]
  -- with a remainder `x` is not zero, and both have a sign
  have hx : x ≠ 0 := fun hx => hdvd (hx ▸ dvd_zero y)
  rcases lt_or_gt_of_ne hx with hx | hx <;> rcases lt_or_gt_of_ne hy with hy | hy <;>
    simp [hdvd, Int.sign_eq_neg_one_of_neg, Int.sign_eq_one_of_pos, hx, hy, hx.le, hy.le, hx.not_ge,
      hy.not_ge]

theorem UnaryOp.compute_eq (op : UnaryOp) (x : Int) : op.compute x = op.apply x := by
  cases op with
  | plus => rfl
  | minus => rfl
  | complement =>
    rw [compute, apply]
    cases x with
    | ofNat m => simp only [Int.lnot, Int.negSucc_eq, Int.ofNat_eq_natCast]; omega
    | negSucc m => simp only [Int.lnot]; omega

theorem shiftCount_eq_ok {y : Int} {n : Nat} :
    shiftCount y = .ok n ↔ y = n ∧ n < 2 ^ 31 := by
  unfold shiftCount
  split
  · simp
    omega
  · split
    · simp
      omega
    · simp
      omega

theorem shiftRight_eq_floor (x : Int) (n : Nat) : x >>> n = ⌊(x : ℚ) / 2 ^ n⌋ := by
  have hfloor := Rat.floor_intCast_div_natCast x (2 ^ n)
  push_cast at hfloor
  rw [hfloor, Int.shiftRight_eq_div_pow]
  push_cast
  rfl

/-- The operators of a tree compute what the operators of arithmetic do. -/
theorem exists_compute? (op : Operator) : ∃ f, op.toBinary.compute? = some f ∧
    ∀ x y v, f x y = .ok v ↔ op.result? x y = some v := by
  cases op with
  | or => exact ⟨_, rfl, fun x y v => by simp [Operator.result?, bitOr_eq]⟩
  | and => exact ⟨_, rfl, fun x y v => by simp [Operator.result?, bitAnd_eq]⟩
  | shiftLeft =>
    refine ⟨_, rfl, fun x y v => ?_⟩
    rw [Operator.result?, bind_eq_ok]
    constructor
    · rintro ⟨n, hn, hv⟩
      obtain ⟨rfl, -⟩ := shiftCount_eq_ok.1 hn
      split at hv
      · cases hv
      · rw [if_pos (by omega), Int.toNat_natCast, ← Int.shiftLeft_eq, ← Except.ok.inj hv]
    · intro h
      split at h
      · rename_i hy
        refine ⟨y.toNat, shiftCount_eq_ok.2 (by omega), ?_⟩
        rw [if_neg (by omega), Int.shiftLeft_eq, Option.some.inj h]
      · cases h
  | shiftRight =>
    refine ⟨_, rfl, fun x y v => ?_⟩
    rw [Operator.result?, bind_eq_ok]
    constructor
    · rintro ⟨n, hn, hv⟩
      obtain ⟨rfl, hlt⟩ := shiftCount_eq_ok.1 hn
      rw [if_pos (by omega), Int.toNat_natCast, ← shiftRight_eq_floor, ← Except.ok.inj hv]
    · intro h
      split at h
      · rename_i hy
        refine ⟨y.toNat, shiftCount_eq_ok.2 (by omega), ?_⟩
        rw [shiftRight_eq_floor, Option.some.inj h]
      · cases h
  | add => exact ⟨_, rfl, fun x y v => by simp [Operator.result?]⟩
  | sub => exact ⟨_, rfl, fun x y v => by simp [Operator.result?]⟩
  | mul => exact ⟨_, rfl, fun x y v => by simp [Operator.result?]⟩
  | div =>
    refine ⟨_, rfl, fun x y v => ?_⟩
    rw [divide_eq, Operator.result?]
    split <;> simp [tdiv_eq_truncated]
  | floorDiv =>
    refine ⟨_, rfl, fun x y v => ?_⟩
    rw [flooredQuotient, Operator.result?]
    split <;> simp [fdiv_eq_floor]
  | mod =>
    refine ⟨_, rfl, fun x y v => ?_⟩
    rw [flooredRemainder, Operator.result?]
    split <;> simp [← fdiv_eq_floor, Int.fmod_def]

theorem compute?_eq_none {op : BinaryOp} (h : op.operator? = none) : op.compute? = none := by
  cases op <;> first | rfl | cases h

/-- A tree has the value of the expression it stands for. -/
theorem Tree.value_eq_ok {x : Tree} {v : Int} :
    x.value = .ok v ↔ ∃ e, x.expr? = some e ∧ e.value? = some v := by
  induction x generalizing v with
  | int column n =>
    rw [Tree.value, Tree.expr?]
    split <;> simp [Expr.value?, eq_comm]
  | empty column => simp [Tree.value, Tree.expr?]
  | paren column x ih => exact ih
  | unary column op x ih =>
    rw [Tree.value, bind_eq_ok]
    constructor
    · rintro ⟨n, hn, hv⟩
      obtain ⟨e, he, hvalue⟩ := ih.1 hn
      refine ⟨.unary op e, Tree.expr?_unary.2 ⟨e, he, rfl⟩, ?_⟩
      rw [Expr.value?, hvalue, Option.map_some, ← op.compute_eq, Except.ok.inj hv]
    · rintro ⟨e, he, hvalue⟩
      obtain ⟨a, ha, rfl⟩ := Tree.expr?_unary.1 he
      obtain ⟨n, hn, rfl⟩ := Option.map_eq_some_iff.1 hvalue
      exact ⟨n, ih.2 ⟨a, ha, hn⟩, by rw [op.compute_eq]⟩
  | binary op x y ihx ihy =>
    constructor
    · intro h
      rw [Tree.value] at h
      cases ho : op.operator? with
      | none =>
        rw [compute?_eq_none ho] at h
        cases h
      | some o =>
        obtain rfl := BinaryOp.operator?_eq_some.1 ho
        obtain ⟨f, hf, happly⟩ := exists_compute? o
        rw [hf] at h
        obtain ⟨a, ha, h⟩ := bind_eq_ok.1 h
        obtain ⟨b, hb, hv⟩ := bind_eq_ok.1 h
        obtain ⟨e, he, hvalue⟩ := ihx.1 ha
        obtain ⟨e', he', hvalue'⟩ := ihy.1 hb
        refine ⟨.binary o e e', Tree.expr?_binary.2 ⟨o, e, e', rfl, he, he', rfl⟩, ?_⟩
        rw [Expr.value?, hvalue, hvalue']
        exact (happly a b v).1 hv
    · rintro ⟨e, he, hvalue⟩
      obtain ⟨o, a, b, rfl, ha, hb, rfl⟩ := Tree.expr?_binary.1 he
      obtain ⟨f, hf, happly⟩ := exists_compute? o
      rw [Expr.value?] at hvalue
      split at hvalue
      · rename_i m n hm hn
        rw [Tree.value, hf]
        simp only [ihx.2 ⟨a, ha, hm⟩, ihy.2 ⟨b, hb, hn⟩, ok_bind]
        exact (happly m n v).2 hvalue
      · cases hvalue
  | call f _ => simp [Tree.value, Tree.expr?]

/-! ## Written expressions -/

/-- What an operator is written as. -/
def Operator.text : Operator → Bytes
  | or => "|"
  | and => "&"
  | shiftLeft => "<<"
  | shiftRight => ">>"
  | add => "+"
  | sub => "-"
  | mul => "*"
  | div => "/"
  | floorDiv => "//"
  | mod => "%"

/-- What a sign is written as. -/
def UnaryOp.text : UnaryOp → Bytes
  | plus => "+"
  | minus => "-"
  | complement => "~"

/-- A text writes an expression, with operators of the rank or tighter outside parentheses. The
right operand of an operator is of a tighter rank, so operators of one rank associate to the left;
the operand of a sign is of the tightest. -/
inductive Writes : Nat → Bytes → Expr → Prop
  | literal {rank n : Nat} {w : Bytes} (h : Literal w n) (hn : n < 2 ^ 63) :
    Writes rank w (.literal n)
  | spaced {rank : Nat} {g s g' : Bytes} {e : Expr} (hg : IsGap g) (h : Writes rank s e)
    (hg' : IsGap g') : Writes rank (g ++ s ++ g') e
  | paren {rank : Nat} {s : Bytes} {e : Expr} (h : Writes 0 s e) :
    Writes rank (byte '(' :: s ++ [byte ')']) e
  | unary {rank : Nat} {op : UnaryOp} {s : Bytes} {x : Expr} (h : Writes 5 s x) :
    Writes rank (op.text ++ s) (.unary op x)
  | binary {rank : Nat} {op : Operator} {s t : Bytes} {x y : Expr} (hop : rank ≤ op.rank)
    (hx : Writes op.rank s x) (hy : Writes (op.rank + 1) t y) :
    Writes rank (s ++ op.text ++ t) (.binary op x y)

theorem Operator.spelling_symbol (op : Operator) : op.symbol.spelling = op.text := by
  cases op <;> rfl

theorem UnaryOp.spelling_symbol (op : UnaryOp) : op.symbol.spelling = op.text := by
  cases op <;> rfl

theorem spelled_mark {symbol : Symbol} (hm : symbol.isMark = true) :
    Spelled [symbol] symbol.spelling := by
  simpa using Spelled.cons isGap_nil (.mark hm) (.nil isGap_nil)

/-- What is written is derived from the symbols it spells. -/
theorem Writes.exists_spelled {rank : Nat} {s : Bytes} {e : Expr} (h : Writes rank s e) :
    ∃ syms, Spelled syms s ∧ Derives rank syms e := by
  induction h with
  | @literal rank n w h hn =>
    exact ⟨[.int n], by simpa using Spelled.cons isGap_nil (.int h) (.nil isGap_nil), .literal hn⟩
  | spaced hg _ hg' ih =>
    obtain ⟨syms, hs, hd⟩ := ih
    have hspelled := (hs.gap_append hg).append (.nil hg')
    rw [List.append_nil] at hspelled
    exact ⟨syms, hspelled, hd⟩
  | paren _ ih =>
    obtain ⟨syms, hs, hd⟩ := ih
    have hopen : Spelled [.parenOpen] [byte '('] := spelled_mark rfl
    have hclose : Spelled [.parenClose] [byte ')'] := spelled_mark rfl
    exact ⟨_, hopen.append (hs.append hclose), .paren hd⟩
  | @unary rank op s x _ ih =>
    obtain ⟨syms, hs, hd⟩ := ih
    have hsign : Spelled [op.symbol] op.text := op.spelling_symbol ▸ spelled_mark op.isMark_symbol
    exact ⟨_, hsign.append hs, .unary hd⟩
  | @binary rank op s t x y hop _ _ ihx ihy =>
    obtain ⟨xs, hxs, hx⟩ := ihx
    obtain ⟨ys, hys, hy⟩ := ihy
    have hsign : Spelled [op.symbol] op.text := op.spelling_symbol ▸ spelled_mark op.isMark_symbol
    have hspelled := hxs.append (hsign.append hys)
    rw [← List.append_assoc s] at hspelled
    exact ⟨_, hspelled, .binary hop hx hy⟩

/-- What is derived is written by every text that spells it. -/
theorem Derives.writes {rank : Nat} {syms : List Symbol} {e : Expr} (h : Derives rank syms e)
    {s : Bytes} (hs : Spelled syms s) : Writes rank s e := by
  induction h generalizing s with
  | @literal _ n hn =>
    cases hs with
    | cons hg hw hs =>
      cases hs with
      | nil hg' =>
        cases hw with
        | mark hm => cases hm
        | int hw => exact .spaced hg (.literal hw hn) hg'
  | @paren rank syms e _ ih =>
    obtain ⟨g, t, rfl, hg, ht⟩ := hs.exists_mark rfl
    obtain ⟨inner, t, rfl, hinner, ht⟩ := ht.exists_append
    obtain ⟨g', t, rfl, hg', ht⟩ := ht.exists_mark rfl
    cases ht with
    | nil hg'' =>
      have hopen : Symbol.spelling .parenOpen = [byte '('] := rfl
      have hclose : Symbol.spelling .parenClose = [byte ')'] := rfl
      have hwrites : Writes rank (g ++ (byte '(' :: ([] ++ inner ++ g') ++ [byte ')']) ++ t) e :=
        .spaced hg (.paren (.spaced isGap_nil (ih hinner) hg')) hg''
      simpa [hopen, hclose] using hwrites
  | @unary rank op syms a _ ih =>
    obtain ⟨g, t, rfl, hg, ht⟩ := hs.exists_mark op.isMark_symbol
    have hwrites : Writes rank (g ++ (op.text ++ t) ++ []) (.unary op a) :=
      .spaced hg (.unary (ih ht)) isGap_nil
    simpa [op.spelling_symbol] using hwrites
  | @binary rank op xs ys a b hop _ _ iha ihb =>
    obtain ⟨left, right, rfl, hleft, hright⟩ := hs.exists_append
    obtain ⟨g, t, rfl, hg, ht⟩ := hright.exists_mark op.isMark_symbol
    have hwrites : Writes rank (([] ++ left ++ g) ++ op.text ++ t) (.binary op a b) :=
      .binary hop (.spaced isGap_nil (iha hleft) hg) (ihb ht)
    simpa [op.spelling_symbol] using hwrites

/-! ## Evaluation -/

/-- A text is accepted if the symbols it spells derive an expression with a value that fits. -/
theorem evaluate_eq_ok {s : Bytes} {v : Int} : evaluate s = .ok v ↔
    ∃ syms e, Spelled syms (trim s) ∧ Derives 0 syms e ∧ e.value? = some v ∧ FitsInt v := by
  constructor
  · intro h
    unfold evaluate at h
    simp only [trim_normalize] at h
    split at h
    · cases h
    · split at h
      · cases h
      · rename_i tree hread
        split at h
        · cases h
        · rename_i n hvalue
          split at h
          · rename_i hfits
            obtain rfl := Except.ok.inj h
            obtain ⟨e, he, hev⟩ := Tree.value_eq_ok.1 hvalue
            have hstream := exists_ofStream_iff.1 ⟨tree, hread, he⟩
            obtain ⟨syms, hspelled, hderives⟩ := exists_leads_scan_iff.1 hstream
            exact ⟨syms, e, hspelled, hderives, hev, hfits⟩
          · cases h
  · rintro ⟨syms, e, hspelled, hderives, hvalue, hfits⟩
    obtain ⟨syms, column, hleads, hderives⟩ := exists_leads_scan_iff.2 ⟨syms, hspelled, hderives⟩
    have hbytes := (cut_of_scan hleads).arithmetic
    have hne : normalize (trim s) ≠ [] := by
      intro hnil
      obtain ⟨symbol, rest, rfl, -⟩ := hderives.exists_cons
      rw [hnil, Stream.scan] at hleads
      cases hleads
    obtain ⟨x, hx, he⟩ := exists_ofStream_iff.2 ⟨syms, column, hleads, hderives⟩
    have hread : Tree.read (normalize (trim s)) = .ok x := hx
    unfold evaluate
    simp only [trim_normalize]
    rw [if_neg (by simpa using ⟨hne, hbytes⟩), hread]
    simp only [Tree.value_eq_ok.2 ⟨e, he, hvalue⟩, if_pos hfits]

/-- Evaluation accepts integer arithmetic, and computes it exactly : a text has the value `v` if,
without white space around it, it writes an expression whose value over the unbounded integers is
`v`, and `v` is a signed 64 bit integer. -/
theorem evaluate_eq_ok_iff_writes (s : Bytes) (v : Int) : evaluate s = .ok v ↔
    ∃ e, Writes 0 (trim s) e ∧ e.value? = some v ∧ -2 ^ 63 ≤ v ∧ v < 2 ^ 63 := by
  have hfits : FitsInt v ↔ -2 ^ 63 ≤ v ∧ v < 2 ^ 63 := by
    unfold FitsInt intLimit
    omega
  rw [evaluate_eq_ok, hfits]
  constructor
  · rintro ⟨syms, e, hspelled, hderives, hvalue⟩
    exact ⟨e, hderives.writes hspelled, hvalue⟩
  · rintro ⟨e, hwrites, hvalue⟩
    obtain ⟨syms, hspelled, hderives⟩ := hwrites.exists_spelled
    exact ⟨syms, e, hspelled, hderives, hvalue⟩

end Asm16.Arith
