import Asm16.Arith.Value
import Asm16.Log

/-!
# The grammar of arithmetic

`Expr` is an expression of integer arithmetic, and `Derives rank syms e` says that the symbols
`syms` stand for `e` with operators of `rank` or tighter outside parentheses. Operators of one rank
associate to the left : the right operand of an operator is of a tighter rank than the operator.

Reading agrees with the grammar. A tree that is arithmetic stands for an expression (`Tree.expr?`),
and what `climb` reads as such a tree is derived by the grammar (`derives_of_climb`). Conversely
`climb` reads what the grammar derives, up to what follows it (`Derives.climb`). Readings carry
proofs about the length of the rest; `Gives` is a reading without them, and there is one lemma about
it for each case of the reading functions.
-/

namespace Asm16.Arith

/-! ## Expressions -/

/-- The binary operators of integer arithmetic. -/
inductive Operator where
  | or | and | shiftLeft | shiftRight | add | sub | mul | div | floorDiv | mod
  deriving DecidableEq, Repr

/-- An expression of integer arithmetic. -/
inductive Expr where
  | literal (n : Nat)
  | unary (op : UnaryOp) (x : Expr)
  | binary (op : Operator) (x y : Expr)
  deriving DecidableEq, Repr

namespace Operator

/-- How tightly an operator binds. -/
def rank : Operator → Nat
  | or => 0
  | and => 1
  | shiftLeft | shiftRight => 2
  | add | sub => 3
  | mul | div | floorDiv | mod => 4

/-- The symbol of an operator. -/
def symbol : Operator → Symbol
  | or => .pipe
  | and => .amp
  | shiftLeft => .shiftLeft
  | shiftRight => .shiftRight
  | add => .plus
  | sub => .minus
  | mul => .star
  | div => .slash
  | floorDiv => .slashSlash
  | mod => .percent

/-- The operator of a tree. -/
def toBinary : Operator → BinaryOp
  | or => .or
  | and => .and
  | shiftLeft => .shiftLeft
  | shiftRight => .shiftRight
  | add => .add
  | sub => .sub
  | mul => .mul
  | div => .div
  | floorDiv => .floorDiv
  | mod => .mod

@[simp] theorem ofSymbol?_symbol (op : Operator) :
    BinaryOp.ofSymbol? op.symbol = some op.toBinary := by
  cases op <;> rfl

@[simp] theorem isComparison_toBinary (op : Operator) : op.toBinary.isComparison = false := by
  cases op <;> rfl

end Operator

/-- The symbol of a sign. -/
def UnaryOp.symbol : UnaryOp → Symbol
  | .plus => .plus
  | .minus => .minus
  | .complement => .tilde

@[simp] theorem UnaryOp.ofSymbol?_eq_some {symbol : Symbol} {op : UnaryOp} :
    ofSymbol? symbol = some op ↔ symbol = op.symbol := by
  constructor
  · intro h
    cases symbol <;> cases op <;> simp_all [ofSymbol?, UnaryOp.symbol]
  · rintro rfl
    cases op <;> rfl

/-- The operator of arithmetic that an operator of a tree is, if it is one. -/
def BinaryOp.operator? : BinaryOp → Option Operator
  | .or => some .or
  | .and => some .and
  | .shiftLeft => some .shiftLeft
  | .shiftRight => some .shiftRight
  | .add => some .add
  | .sub => some .sub
  | .mul => some .mul
  | .div => some .div
  | .floorDiv => some .floorDiv
  | .mod => some .mod
  | .less | .greater | .xor => none

@[simp] theorem BinaryOp.operator?_eq_some {op : BinaryOp} {o : Operator} :
    op.operator? = some o ↔ op = o.toBinary := by
  cases op <;> cases o <;> simp [operator?, Operator.toBinary]

theorem BinaryOp.symbol_of_ofSymbol? {symbol : Symbol} {o : Operator}
    (h : ofSymbol? symbol = some o.toBinary) : symbol = o.symbol := by
  cases symbol <;> cases o <;> simp_all [ofSymbol?, Operator.toBinary, Operator.symbol]

/-- The rank at which the operators of a level or tighter stand. -/
def rankOf (level : Nat) : Nat :=
  if level ≤ 4 then 0
  else if level ≤ 6 then 1
  else if level ≤ 7 then 2
  else if level ≤ 8 then 3
  else if level ≤ 9 then 4
  else 5

/-- The level at which every operator is too loose. -/
def tightest : Nat := 10

theorem level_lt_tightest (op : BinaryOp) : op.level < tightest := by
  cases op <;> decide

namespace Operator

theorem rankOf_le_rank {op : Operator} {least : Nat} :
    rankOf least ≤ op.rank ↔ least ≤ op.toBinary.level := by
  unfold rankOf
  cases op <;> simp only [rank, toBinary, BinaryOp.level] <;> grind

theorem rankOf_level_succ (op : Operator) : rankOf (op.toBinary.level + 1) = op.rank + 1 := by
  cases op <;> rfl

theorem rank_le_rank {op op' : Operator} :
    op'.rank ≤ op.rank ↔ op'.toBinary.level ≤ op.toBinary.level := by
  have hrank : rankOf op'.toBinary.level = op'.rank := by cases op' <;> rfl
  rw [← hrank, rankOf_le_rank]

end Operator

/-! ## The grammar -/

/-- The symbols stand for an expression, with operators of the rank or tighter outside
parentheses. -/
inductive Derives : Nat → List Symbol → Expr → Prop
  | literal {rank n : Nat} (hn : n < Numeral.intLimit) : Derives rank [.int n] (.literal n)
  | paren {rank : Nat} {syms : List Symbol} {e : Expr} (h : Derives 0 syms e) :
    Derives rank (.parenOpen :: (syms ++ [.parenClose])) e
  | unary {rank : Nat} {op : UnaryOp} {syms : List Symbol} {x : Expr} (h : Derives 5 syms x) :
    Derives rank (op.symbol :: syms) (.unary op x)
  | binary {rank : Nat} {op : Operator} {xs ys : List Symbol} {x y : Expr}
    (hop : rank ≤ op.rank) (hx : Derives op.rank xs x) (hy : Derives (op.rank + 1) ys y) :
    Derives rank (xs ++ op.symbol :: ys) (.binary op x y)

theorem Derives.mono {rank rank' : Nat} {syms : List Symbol} {e : Expr} (h : Derives rank syms e)
    (hle : rank' ≤ rank) : Derives rank' syms e := by
  cases h with
  | literal hn => exact .literal hn
  | paren h => exact .paren h
  | unary h => exact .unary h
  | binary hop hx hy => exact .binary (Nat.le_trans hle hop) hx hy

/-- The symbols an expression begins with. -/
def Symbol.Opens : Symbol → Prop
  | int _ | parenOpen | plus | minus | tilde => True
  | _ => False

/-- An expression begins with a symbol that opens one. -/
theorem Derives.exists_cons {rank : Nat} {syms : List Symbol} {e : Expr} (h : Derives rank syms e) :
    ∃ symbol rest, syms = symbol :: rest ∧ symbol.Opens := by
  induction h with
  | literal _ => exact ⟨_, _, rfl, trivial⟩
  | paren _ _ => exact ⟨_, _, rfl, trivial⟩
  | @unary _ op _ _ _ _ => exact ⟨_, _, rfl, by cases op <;> trivial⟩
  | binary _ _ _ ihx _ =>
    obtain ⟨symbol, rest, rfl, hopens⟩ := ihx
    exact ⟨symbol, _, rfl, hopens⟩

/-! ## Trees as expressions -/

/-- The expression a tree stands for, if it is arithmetic. -/
def Tree.expr? : Tree → Option Expr
  | .int _ n => if n < Numeral.intLimit then some (.literal n) else none
  | .empty _ => none
  | .paren _ x => x.expr?
  | .unary _ op x => x.expr?.map (.unary op)
  | .binary op x y =>
    match op.operator?, x.expr?, y.expr? with
    | some o, some a, some b => some (.binary o a b)
    | _, _, _ => none
  | .call _ => none

theorem Tree.expr?_unary {column : Nat} {op : UnaryOp} {x : Tree} {e : Expr} :
    (Tree.unary column op x).expr? = some e ↔ ∃ a, x.expr? = some a ∧ e = .unary op a := by
  simp only [Tree.expr?, Option.map_eq_some_iff, eq_comm (a := e)]

theorem Tree.expr?_binary {op : BinaryOp} {x y : Tree} {e : Expr} :
    (Tree.binary op x y).expr? = some e ↔ ∃ o a b, op = o.toBinary ∧ x.expr? = some a ∧
      y.expr? = some b ∧ e = .binary o a b := by
  simp only [Tree.expr?]
  constructor
  · intro h
    split at h
    · rename_i o a b ho ha hb
      exact ⟨o, a, b, BinaryOp.operator?_eq_some.1 ho, ha, hb, (Option.some.inj h).symm⟩
    · cases h
  · rintro ⟨o, a, b, ho, ha, hb, rfl⟩
    rw [BinaryOp.operator?_eq_some.2 ho, ha, hb]

/-! ## Readings -/

/-- A stream begins with the given symbols and goes on with another stream. -/
inductive Leads : List Symbol → Stream → Stream → Prop
  | nil {s : Stream} : Leads [] s s
  | cons {symbol : Symbol} {syms : List Symbol} {start stop : Nat} {s r : Stream}
    (h : Leads syms s r) : Leads (symbol :: syms) (.more symbol start stop s) r

theorem leads_singleton {symbol : Symbol} {start stop : Nat} {s : Stream} :
    Leads [symbol] (.more symbol start stop s) s :=
  .cons .nil

theorem leads_append {syms syms' : List Symbol} {s r : Stream} :
    Leads (syms ++ syms') s r ↔ ∃ m, Leads syms s m ∧ Leads syms' m r := by
  induction syms generalizing s with
  | nil =>
    refine ⟨fun h => ⟨s, .nil, h⟩, ?_⟩
    rintro ⟨m, h, h'⟩
    cases h
    exact h'
  | cons symbol syms ih =>
    constructor
    · intro h
      cases h with
      | cons h =>
        obtain ⟨m, hm, hr⟩ := ih.1 h
        exact ⟨m, .cons hm, hr⟩
    · rintro ⟨m, h, hr⟩
      cases h with
      | cons h => exact .cons (ih.2 ⟨m, h, hr⟩)

theorem Leads.append {syms syms' : List Symbol} {s m r : Stream} (h : Leads syms s m)
    (h' : Leads syms' m r) : Leads (syms ++ syms') s r :=
  leads_append.2 ⟨m, h, h'⟩

/-- A reading succeeds with a tree and a rest. -/
def Gives {P : Tree × Stream → Prop} (p : Except FormError (Subtype P)) (x : Tree) (r : Stream) :
    Prop :=
  ∃ h, p = .ok ⟨(x, r), h⟩

section Gives

variable {s r : Stream} {x z : Tree} {least : Nat}

theorem Gives.length_lt {p : Except FormError (Below s)} (h : Gives p x r) : r.length < s.length :=
  h.1

@[simp] theorem gives_ok {P : Tree × Stream → Prop} {a : Subtype P} :
    Gives (.ok a) x r ↔ a.1 = (x, r) := by
  constructor
  · rintro ⟨_, h⟩
    rw [Except.ok.inj h]
  · intro h
    obtain ⟨a, ha⟩ := a
    subst h
    exact ⟨ha, rfl⟩

@[simp] theorem not_gives_error {P : Tree × Stream → Prop} {e : FormError} :
    ¬Gives (.error e : Except FormError (Subtype P)) x r := by
  rintro ⟨_, h⟩
  cases h

theorem exists_of_close {flaw : Option Symbol → Flaw} {a : { r : Stream // r.length < s.length }}
    (h : close s flaw = .ok a) : ∃ start stop, s = .more .parenClose start stop a.1 := by
  unfold close misfit at h
  split at h
  · obtain rfl := Except.ok.inj h
    exact ⟨_, _, rfl⟩
  · split at h <;> cases h

/-- One reading after another. -/
theorem gives_bind {P Q : Tree × Stream → Prop} {p : Except FormError (Subtype P)}
    {f : Subtype P → Except FormError (Subtype Q)} {q : Tree → Stream → Prop}
    (hf : ∀ y m h, Gives (f ⟨(y, m), h⟩) x r ↔ q y m) :
    Gives (p >>= f) x r ↔ ∃ y m, Gives p y m ∧ q y m := by
  cases p with
  | error e => simp
  | ok a =>
    obtain ⟨⟨y, m⟩, h⟩ := a
    rw [ok_bind, hf y m h]
    refine ⟨fun hq => ⟨y, m, gives_ok.2 rfl, hq⟩, ?_⟩
    rintro ⟨y', m', hgives, hq⟩
    obtain ⟨rfl, rfl⟩ := Prod.mk.inj (gives_ok.1 hgives)
    exact hq

/-- The proofs about the rest do not matter. -/
theorem gives_widen {P Q : Tree × Stream → Prop} {p : Except FormError (Subtype P)}
    (g : ∀ a : Subtype P, Q a.1) : Gives (p >>= fun a => .ok ⟨a.1, g a⟩) x r ↔ Gives p x r := by
  cases p <;> simp

theorem gives_operand : Gives (operand s) x r ↔
    ∃ y m, Gives (primary s) y m ∧ Gives (calls y m) x r := by
  rw [operand]
  exact gives_bind fun y m h => gives_widen _

theorem gives_climb : Gives (climb least s) x r ↔
    ∃ y m, Gives (operand s) y m ∧ Gives (chain least y m) x r := by
  rw [climb]
  exact gives_bind fun y m h => gives_widen _

theorem gives_primary_int {n start stop : Nat} :
    Gives (primary (.more (.int n) start stop s)) x r ↔ x = .int start n ∧ r = s := by
  rw [primary]
  simp [eq_comm]

theorem gives_primary_empty {start stop i j : Nat} :
    Gives (primary (.more .parenOpen start stop (.more .parenClose i j s))) x r ↔
      x = .empty start ∧ r = s := by
  rw [primary]
  simp [eq_comm]

theorem gives_primary_paren {start stop : Nat} (hs : ∀ i j t, s ≠ .more .parenClose i j t) :
    Gives (primary (.more .parenOpen start stop s)) x r ↔
      ∃ y, (∃ i j, Gives (climb BinaryOp.loosest s) y (.more .parenClose i j r)) ∧
        x = .paren start y := by
  rw [primary]
  · constructor
    · rintro ⟨h, hok⟩
      obtain ⟨⟨⟨y, m⟩, hy⟩, hclimb, hrest⟩ := bind_eq_ok.1 hok
      obtain ⟨⟨t, ht⟩, hclose, heq⟩ := bind_eq_ok.1 hrest
      obtain ⟨rfl, rfl⟩ := Prod.mk.inj (congrArg Subtype.val (Except.ok.inj heq))
      obtain ⟨i, j, hm⟩ := exists_of_close hclose
      exact ⟨y, ⟨i, j, hm ▸ ⟨hy, hclimb⟩⟩, rfl⟩
    · rintro ⟨y, ⟨i, j, hy, hclimb⟩, rfl⟩
      rw [hclimb]
      exact gives_ok.2 rfl
  · exact hs

theorem gives_primary_unary {symbol : Symbol} {op : UnaryOp} {start stop : Nat}
    (hop : UnaryOp.ofSymbol? symbol = some op) :
    Gives (primary (.more symbol start stop s)) x r ↔
      ∃ y, Gives (operand s) y r ∧ x = .unary start op y := by
  have hi : ∀ n, symbol ≠ .int n := by
    rintro n rfl
    cases hop
  have hp : symbol ≠ .parenOpen := by
    rintro rfl
    cases hop
  rw [primary]
  · simp only [hop]
    rw [gives_bind (q := fun y m => (Tree.unary start op y, m) = (x, r)) fun y m h => gives_ok]
    simp [eq_comm]
  · exact hi
  · exact fun _ _ _ h => absurd h hp
  · exact hp

theorem not_gives_primary {symbol : Symbol} {start stop : Nat} (hi : ∀ n, symbol ≠ .int n)
    (hp : symbol ≠ .parenOpen) (hop : UnaryOp.ofSymbol? symbol = none) :
    ¬Gives (primary (.more symbol start stop s)) x r := by
  rw [primary]
  · simp [hop]
  · exact hi
  · exact fun _ _ _ h => absurd h hp
  · exact hp

theorem gives_calls {f : Tree} (hs : ∀ i j t, s ≠ .more .parenOpen i j t) :
    Gives (calls f s) x r ↔ x = f ∧ r = s := by
  rw [calls]
  · simp [eq_comm]
  · exact hs

/-- Calls are no arithmetic. -/
theorem expr?_of_calls {f : Tree} (h : Gives (calls f s) x r) :
    (x = f ∧ r = s) ∨ x.expr? = none := by
  induction hn : s.length using Nat.strongRecOn generalizing f s with
  | ind n ih =>
    by_cases hs : ∃ i j t, s = .more .parenOpen i j t
    · obtain ⟨i, j, t, rfl⟩ := hs
      obtain ⟨_, hok⟩ := h
      rw [calls] at hok
      obtain ⟨⟨after, hafter⟩, -, hrest⟩ := bind_eq_ok.1 hok
      have hcall : Gives (calls (.call f) after) x r := (gives_widen _).1 ⟨_, hrest⟩
      have hlt : after.length < n := by
        rw [← hn, Stream.length]
        omega
      rcases ih after.length hlt hcall rfl with ⟨rfl, -⟩ | hnone
      · exact .inr rfl
      · exact .inr hnone
    · exact .inl ((gives_calls fun i j t ht => hs ⟨i, j, t, ht⟩).1 h)

/-- The operator at the front of a stream. -/
def Stream.operator? : Stream → Option BinaryOp
  | .more symbol _ _ _ => BinaryOp.ofSymbol? symbol
  | _ => none

/-- What follows operands that are joined by operators of a level. -/
def Stops (least : Nat) (s : Stream) : Prop := ∀ op, s.operator? = some op → op.level < least

theorem gives_chain_stop (hs : Stops least s) : Gives (chain least x s) z r ↔ z = x ∧ r = s := by
  rw [chain.eq_def]
  split
  · rename_i symbol start stop rest
    split
    · simp [eq_comm]
    · rename_i op hop
      rw [if_pos (hs op hop)]
      simp [eq_comm]
  · simp [eq_comm]

theorem gives_chain_more {op : BinaryOp} {symbol : Symbol} {start stop : Nat}
    (hsymbol : BinaryOp.ofSymbol? symbol = some op) (hlevel : least ≤ op.level)
    (hfree : (if op.isComparison then x.comparison? else none) = none) :
    Gives (chain least x (.more symbol start stop s)) z r ↔
      ∃ y m, Gives (climb (op.level + 1) s) y m ∧ Gives (chain least (.binary op x y) m) z r := by
  rw [chain]
  simp only [hsymbol, Nat.not_lt.2 hlevel, if_false, hfree]
  exact gives_bind fun y m h => gives_widen _

theorem comparison?_of_gives_chain {op : BinaryOp} {symbol : Symbol} {start stop : Nat}
    (hsymbol : BinaryOp.ofSymbol? symbol = some op) (hlevel : least ≤ op.level)
    (h : Gives (chain least x (.more symbol start stop s)) z r) :
    (if op.isComparison then x.comparison? else none) = none := by
  rw [chain] at h
  simp only [hsymbol, Nat.not_lt.2 hlevel, if_false] at h
  split at h
  · exact absurd h not_gives_error
  · assumption

end Gives

/-! ## What is read is derived -/

/-- What is read from a stream as arithmetic is derived by the grammar. -/
structure Sound (s : Stream) : Prop where
  operand : ∀ {x r e}, Gives (operand s) x r → x.expr? = some e →
    ∃ syms, Leads syms s r ∧ Derives 5 syms e
  climb : ∀ {least x r e}, Gives (climb least s) x r → x.expr? = some e →
    Stops least r ∧ ∃ syms, Leads syms s r ∧ Derives (rankOf least) syms e
  /-- Read on from the operand `x`, which goes from `t` up to here. -/
  chain : ∀ {least x z r e}, Gives (chain least x s) z r → z.expr? = some e →
    Stops least r ∧ ∃ a, x.expr? = some a ∧ ∀ {t syms rank}, Leads syms t s → Derives rank syms a →
      rankOf least ≤ rank → (∀ o : Operator, s.operator? = some o.toBinary → o.rank ≤ rank) →
      ∃ syms', Leads syms' t r ∧ Derives (rankOf least) syms' e

section Soundness

variable {s : Stream} (ih : ∀ t : Stream, t.length < s.length → Sound t)
include ih

theorem derives_of_primary {x : Tree} {r : Stream} {e : Expr} (h : Gives (primary s) x r)
    (he : x.expr? = some e) : ∃ syms, Leads syms s r ∧ Derives 5 syms e := by
  cases s with
  | done column =>
    rw [primary] at h
    exact absurd h not_gives_error
  | fault column flaw =>
    rw [primary] at h
    exact absurd h not_gives_error
  | more symbol start stop s =>
    have hs : s.length < (Stream.more symbol start stop s).length := Nat.lt_succ_self _
    by_cases hi : ∃ n, symbol = .int n
    · obtain ⟨n, rfl⟩ := hi
      obtain ⟨rfl, rfl⟩ := gives_primary_int.1 h
      rw [Tree.expr?] at he
      split at he
      · rename_i hn
        obtain rfl := Option.some.inj he
        exact ⟨_, leads_singleton, .literal hn⟩
      · cases he
    · by_cases hp : symbol = .parenOpen
      · subst hp
        by_cases hc : ∃ i j t, s = .more .parenClose i j t
        · obtain ⟨i, j, t, rfl⟩ := hc
          obtain ⟨rfl, rfl⟩ := gives_primary_empty.1 h
          cases he
        · rw [gives_primary_paren fun i j t ht => hc ⟨i, j, t, ht⟩] at h
          obtain ⟨y, ⟨i, j, hy⟩, rfl⟩ := h
          obtain ⟨-, syms, hleads, hderives⟩ := (ih s hs).climb hy he
          exact ⟨_, .cons (hleads.append leads_singleton), .paren hderives⟩
      · cases hop : UnaryOp.ofSymbol? symbol with
        | none => exact absurd h (not_gives_primary (fun n hn => hi ⟨n, hn⟩) hp hop)
        | some op =>
          obtain ⟨y, hy, rfl⟩ := (gives_primary_unary hop).1 h
          obtain ⟨a, ha, rfl⟩ := Tree.expr?_unary.1 he
          obtain ⟨syms, hleads, hderives⟩ := (ih s hs).operand hy ha
          obtain rfl := UnaryOp.ofSymbol?_eq_some.1 hop
          exact ⟨_, .cons hleads, .unary hderives⟩

theorem derives_of_operand {x : Tree} {r : Stream} {e : Expr} (h : Gives (operand s) x r)
    (he : x.expr? = some e) : ∃ syms, Leads syms s r ∧ Derives 5 syms e := by
  obtain ⟨y, m, hy, hcalls⟩ := gives_operand.1 h
  rcases expr?_of_calls hcalls with ⟨rfl, rfl⟩ | hnone
  · exact derives_of_primary ih hy he
  · rw [hnone] at he
    cases he

theorem derives_of_climb {least : Nat} {x : Tree} {r : Stream} {e : Expr}
    (h : Gives (climb least s) x r) (he : x.expr? = some e) :
    Stops least r ∧ ∃ syms, Leads syms s r ∧ Derives (rankOf least) syms e := by
  obtain ⟨y, m, hy, hchain⟩ := gives_climb.1 h
  obtain ⟨hstops, a, ha, hderives⟩ := (ih m hy.length_lt).chain hchain he
  obtain ⟨syms, hleads, hoperand⟩ := derives_of_operand ih hy ha
  refine ⟨hstops, hderives hleads hoperand ?_ ?_⟩
  · unfold rankOf
    grind
  · intro o _
    cases o <;> decide

theorem derives_of_chain {least : Nat} {x z : Tree} {r : Stream} {e : Expr}
    (h : Gives (chain least x s) z r) (he : z.expr? = some e) :
    Stops least r ∧ ∃ a, x.expr? = some a ∧ ∀ {t syms rank}, Leads syms t s → Derives rank syms a →
      rankOf least ≤ rank → (∀ o : Operator, s.operator? = some o.toBinary → o.rank ≤ rank) →
      ∃ syms', Leads syms' t r ∧ Derives (rankOf least) syms' e := by
  by_cases hstops : Stops least s
  · obtain ⟨rfl, rfl⟩ := (gives_chain_stop hstops).1 h
    exact ⟨hstops, e, he, fun hleads hderives hrank _ => ⟨_, hleads, hderives.mono hrank⟩⟩
  · obtain ⟨op, hnot⟩ := Classical.not_forall.1 hstops
    obtain ⟨hop, hlevel⟩ := Classical.not_imp.1 hnot
    have hlevel := Nat.not_lt.1 hlevel
    cases s with
    | done column => cases hop
    | fault column flaw => cases hop
    | more symbol start stop s =>
      obtain ⟨y, m, hy, hz⟩ :=
        (gives_chain_more hop hlevel (comparison?_of_gives_chain hop hlevel h)).1 h
      have hs : s.length < (Stream.more symbol start stop s).length := Nat.lt_succ_self _
      obtain ⟨hstops, b, hb, hnext⟩ := (ih m (Nat.lt_trans hy.length_lt hs)).chain hz he
      obtain ⟨o, a, c, rfl, ha, hc, rfl⟩ := Tree.expr?_binary.1 hb
      obtain ⟨hm, ysyms, hyleads, hyderives⟩ := (ih s hs).climb hy hc
      refine ⟨hstops, a, ha, ?_⟩
      intro t syms rank hleads hderives hrank ho
      rw [o.rankOf_level_succ] at hyderives
      obtain rfl := BinaryOp.symbol_of_ofSymbol? hop
      have hleft : Derives o.rank syms a := hderives.mono (ho o hop)
      refine hnext (hleads.append (.cons hyleads)) (.binary (Nat.le_refl _) hleft hyderives)
        (Operator.rankOf_le_rank.2 hlevel) fun o' ho' => ?_
      exact Operator.rank_le_rank.2 (Nat.le_of_lt_succ (hm _ ho'))

end Soundness

theorem sound (s : Stream) : Sound s := by
  induction hn : s.length using Nat.strongRecOn generalizing s with
  | ind n ih =>
    have ih : ∀ t : Stream, t.length < s.length → Sound t :=
      fun t ht => ih t.length (hn ▸ ht) t rfl
    exact ⟨derives_of_operand ih, derives_of_climb ih, derives_of_chain ih⟩

/-! ## What is derived is read -/

/-- What may follow an expression of a rank : no operator that binds tighter, and no argument
list. -/
structure Ends (rank : Nat) (s : Stream) : Prop where
  ne_paren : ∀ i j t, s ≠ .more .parenOpen i j t
  operator : ∀ op, s.operator? = some op → ∃ o : Operator, op = o.toBinary ∧ o.rank ≤ rank

theorem Ends.mono {rank rank' : Nat} {s : Stream} (h : Ends rank s) (hle : rank ≤ rank') :
    Ends rank' s := by
  refine ⟨h.ne_paren, fun op hop => ?_⟩
  obtain ⟨o, ho, hrank⟩ := h.operator op hop
  exact ⟨o, ho, Nat.le_trans hrank hle⟩

theorem ends_done (rank column : Nat) : Ends rank (.done column) :=
  ⟨by simp, by simp [Stream.operator?]⟩

theorem ends_parenClose (rank start stop : Nat) (s : Stream) :
    Ends rank (.more .parenClose start stop s) :=
  ⟨by simp, by simp [Stream.operator?, BinaryOp.ofSymbol?]⟩

theorem ends_symbol (op : Operator) (start stop : Nat) (s : Stream) :
    Ends op.rank (.more op.symbol start stop s) := by
  refine ⟨fun i j t h => ?_, fun op' hop' => ⟨op, ?_, Nat.le_refl _⟩⟩
  · cases op <;> cases h
  · simpa [Stream.operator?, eq_comm] using hop'

theorem Derives.ne_parenClose {rank : Nat} {syms : List Symbol} {e : Expr}
    (h : Derives rank syms e) {s r : Stream} (hs : Leads syms s r) :
    ∀ i j t, s ≠ .more .parenClose i j t := by
  rintro i j t rfl
  obtain ⟨symbol, rest, rfl, hopens⟩ := h.exists_cons
  cases hs
  exact hopens

/-- An operand that is read is the whole of what `climb` starts with. -/
theorem Gives.climb {least rank : Nat} {s r t : Stream} {x z : Tree} (h : Gives (primary s) x r)
    (hr : Ends rank r) (hz : Gives (chain least x r) z t) : Gives (climb least s) z t :=
  gives_climb.2 ⟨x, r, gives_operand.2 ⟨x, r, h, (gives_calls hr.ne_paren).2 ⟨rfl, rfl⟩⟩, hz⟩

theorem gives_operand_of_climb {s r : Stream} {x : Tree} (h : Gives (Arith.climb tightest s) x r) :
    Gives (operand s) x r := by
  obtain ⟨y, m, hy, hchain⟩ := gives_climb.1 h
  obtain ⟨rfl, rfl⟩ := (gives_chain_stop fun op _ => level_lt_tightest op).1 hchain
  exact hy

/-- Reading takes an expression as a whole and goes on with what follows it. -/
theorem Derives.climb {rank : Nat} {syms : List Symbol} {e : Expr} (h : Derives rank syms e)
    (least : Nat) {s r : Stream} (hs : Leads syms s r) (hleast : rankOf least ≤ rank)
    (hr : Ends rank r) : ∃ x : Tree, x.expr? = some e ∧
      ∀ {z t}, Gives (chain least x r) z t → Gives (Arith.climb least s) z t := by
  induction h generalizing least s r with
  | @literal _ n hn =>
    cases hs with
    | cons hs =>
      cases hs
      exact ⟨.int _ n, by rw [Tree.expr?, if_pos hn], (gives_primary_int.2 ⟨rfl, rfl⟩).climb hr⟩
  | @paren _ syms e he ih =>
    cases hs with
    | @cons _ _ start _ s _ hs =>
      obtain ⟨m, hm, hclose⟩ := leads_append.1 hs
      cases hclose with
      | @cons _ _ i j _ _ hnil =>
        cases hnil
        obtain ⟨x, hx, hread⟩ := ih BinaryOp.loosest hm (Nat.le_refl _) (ends_parenClose _ _ _ _)
        have hstops : Stops BinaryOp.loosest (.more .parenClose i j r) := by
          simp [Stops, Stream.operator?, BinaryOp.ofSymbol?]
        have hinner := hread ((gives_chain_stop hstops).2 ⟨rfl, rfl⟩)
        refine ⟨.paren start x, hx, Gives.climb ?_ hr⟩
        exact (gives_primary_paren (he.ne_parenClose hm)).2 ⟨x, ⟨i, j, hinner⟩, rfl⟩
  | @unary _ op syms a ha ih =>
    cases hs with
    | @cons _ _ start _ s _ hs =>
      have hfive : Ends 5 r := by
        refine ⟨hr.ne_paren, fun op hop => ?_⟩
        obtain ⟨o, ho, -⟩ := hr.operator op hop
        exact ⟨o, ho, by cases o <;> decide⟩
      obtain ⟨x, hx, hread⟩ := ih tightest hs (Nat.le_refl _) hfive
      have hstops : Stops tightest r := fun op _ => level_lt_tightest op
      have hoperand := gives_operand_of_climb (hread ((gives_chain_stop hstops).2 ⟨rfl, rfl⟩))
      refine ⟨.unary start op x, Tree.expr?_unary.2 ⟨a, hx, rfl⟩, Gives.climb ?_ hr⟩
      exact (gives_primary_unary (UnaryOp.ofSymbol?_eq_some.2 rfl)).2 ⟨x, hoperand, rfl⟩
  | @binary rank op xs ys a b hop ha hb iha ihb =>
    obtain ⟨m, hm, hrest⟩ := leads_append.1 hs
    cases hrest with
    | @cons _ _ start stop t _ ht =>
      obtain ⟨x, hx, hxread⟩ := iha least hm (Nat.le_trans hleast hop) (ends_symbol op start stop t)
      obtain ⟨y, hy, hyread⟩ := ihb (op.toBinary.level + 1) ht
        (Nat.le_of_eq op.rankOf_level_succ) (hr.mono (Nat.le_succ_of_le hop))
      have hstops : Stops (op.toBinary.level + 1) r := by
        intro op' hop'
        obtain ⟨o, rfl, hrank⟩ := hr.operator op' hop'
        exact Nat.lt_succ_of_le (Operator.rank_le_rank.1 (Nat.le_trans hrank hop))
      refine ⟨.binary op.toBinary x y, Tree.expr?_binary.2 ⟨op, a, b, rfl, hx, hy, rfl⟩, ?_⟩
      intro z t hz
      refine hxread ((gives_chain_more op.ofSymbol?_symbol ?_ (by simp)).2 ⟨y, r, ?_, hz⟩)
      · exact Operator.rankOf_le_rank.1 (Nat.le_trans hleast hop)
      · exact hyread ((gives_chain_stop hstops).2 ⟨rfl, rfl⟩)

/-! ## Whole streams -/

theorem ofStream_eq_ok {s : Stream} {x : Tree} : Tree.ofStream s = .ok x ↔
    ∃ column, Gives (climb BinaryOp.loosest s) x (.done column) := by
  unfold Tree.ofStream
  constructor
  · intro h
    obtain ⟨⟨⟨y, m⟩, hy⟩, hclimb, hrest⟩ := bind_eq_ok.1 h
    cases m with
    | done column =>
      obtain rfl := Except.ok.inj hrest
      exact ⟨column, hy, hclimb⟩
    | fault column flaw => cases hrest
    | more symbol start stop t => cases hrest
  · rintro ⟨column, hy, hclimb⟩
    rw [hclimb]
    rfl

/-- A stream is read as an expression if the grammar derives the expression from its symbols. -/
theorem exists_ofStream_iff {s : Stream} {e : Expr} :
    (∃ x, Tree.ofStream s = .ok x ∧ x.expr? = some e) ↔
      ∃ syms column, Leads syms s (.done column) ∧ Derives 0 syms e := by
  constructor
  · rintro ⟨x, hx, he⟩
    obtain ⟨column, hgives⟩ := ofStream_eq_ok.1 hx
    obtain ⟨-, syms, hleads, hderives⟩ := (sound s).climb hgives he
    exact ⟨syms, column, hleads, hderives⟩
  · rintro ⟨syms, column, hleads, hderives⟩
    obtain ⟨x, hx, hread⟩ :=
      hderives.climb BinaryOp.loosest hleads (Nat.le_refl _) (ends_done _ _)
    have hstops : Stops BinaryOp.loosest (.done column) := by simp [Stops, Stream.operator?]
    exact ⟨x, ofStream_eq_ok.2 ⟨column, hread ((gives_chain_stop hstops).2 ⟨rfl, rfl⟩)⟩, hx⟩

end Asm16.Arith
