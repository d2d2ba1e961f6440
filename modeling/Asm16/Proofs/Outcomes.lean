import Asm16.Proofs.OperandGrammar
import Asm16.Proofs.ExpressionTexts
import Asm16.Proofs.SingleLine

/-!
# What becomes of a line

A line may hold text that is not recognised; else it is laid out, its labels are looked up, and it
is encoded, and each of these may fail (`Line.outcome`). For an instruction all of it is decided by
the tokens that carry meaning, wherever they stand : `Instruction.reading` is the instruction they
make, or the cause if they make none.

Two texts assemble alike if they have the same outcome as lines of the same program, whatever the
addresses of labels (`AssembleAlike`). This can be seen from their lexemes
(`assembleAlike_of_sense`).
-/

namespace Asm16

/-! ## Outcomes -/

/-- A fault without what it quotes from the line. -/
def Fault.innermost : Fault → Fault
  | operand _ cause => value cause
  | fault => fault

/-- What becomes of a line. -/
inductive Outcome where
  /-- There is text in it that is not recognised. -/
  | unrecognised (texts : List Bytes)
  /-- It has no size. -/
  | malformed (fault : Fault)
  /-- It uses a label without an address. -/
  | unknown (label : Bytes)
  /-- It has no encoding. -/
  | valueless (fault : Fault)
  | assembled (size : Int) (block : Block)
  deriving DecidableEq, Repr

namespace Line

/-- The first label a line uses that has no address. -/
def unknown? (find : Bytes → Option Int) (l : Line) : Option Bytes :=
  ((l.tokens.filter (·.kind == .labelUse)).map (·.symbol)).find? fun name => (find name).isNone

/-- What becomes of a line at address `offset`, if labels have the addresses `find` gives. -/
def outcome (find : Bytes → Option Int) (offset : Int) (l : Line) : Outcome :=
  match (errorTokens l.tokens).map (·.text) with
  | text :: more => .unrecognised (text :: more)
  | [] =>
    match l.measure offset with
    | .error fault => .malformed fault.innermost
    | .ok (size, code) =>
      match l.unknown? find with
      | some label => .unknown label
      | none =>
        match (Line.resolve find { l with offset, size, code }).encode with
        | .error fault => .valueless fault.innermost
        | .ok block => .assembled size block

end Line

/-! ## Instructions without places -/

/-- A token at the start of a line. -/
def Token.atStart (t : Token) : Token := { t with start := 0, mode := .initial }

theorem Token.keepsForm_atStart : Token.KeepsForm Token.atStart where
  kind_eq _ := rfl
  text_eq _ := rfl
  contents_eq _ := rfl
  value_eq _ _ := rfl
  implied_eq _ _ _ := rfl

theorem expressionText_atStart (ts : List Token) :
    expressionText (ts.map Token.atStart) = expressionText ts := by
  induction ts with
  | nil => rfl
  | cons t ts ih =>
    rw [List.map_cons, expressionText, expressionText, ih]
    rfl

theorem evaluateTokens_atStart (ts : List Token) :
    evaluateTokens (ts.map Token.atStart) = evaluateTokens ts := by
  simp only [evaluateTokens, expressionText_atStart]
  match ts with
  | [] | [_] | _ :: _ :: _ => rfl

/-- The words of an operand are the same wherever its tokens stand. -/
theorem Operand.encode_resolve_atStart (find : Bytes → Option Int) (o : Operand) :
    ((o.mapTokens Token.atStart).resolve find).encode = (o.resolve find).encode := by
  have hresolve (ts : List Token) : (ts.map Token.atStart).map (Token.resolve find) =
      (ts.map (Token.resolve find)).map Token.atStart := by
    rw [List.map_map, List.map_map]
    refine List.map_congr_left fun t _ => ?_
    simp only [Function.comp_apply, Token.resolve]
    rw [show t.atStart.kind = t.kind from rfl]
    split <;> rfl
  obtain ⟨code, expr⟩ := o
  cases expr with
  | none => rfl
  | some ts =>
    simp only [mapTokens, resolve, Option.map_some, encode, hresolve, evaluateTokens_atStart]

namespace Instruction

theorem encode_resolve_atStart (find : Bytes → Option Int) (c : Instruction) :
    ((c.mapTokens Token.atStart).resolve find).encode = (c.resolve find).encode := by
  cases c with
  | basic op b a => simp only [mapTokens, resolve, encode, Operand.encode_resolve_atStart]; rfl
  | special op a => simp only [mapTokens, resolve, encode, Operand.encode_resolve_atStart]; rfl

/-- The instruction of significant tokens, or why they make none. -/
def reading (ts : List Token) : Except OperandFault (Option Instruction) :=
  match ts.dropWhile (·.kind == .labelDef) with
  | [] => .ok none
  | opcode :: rest =>
    match shape? opcode with
    | none => .error .form
    | some shape => (ofRuns Operand.parse id shape (operandRuns rest)).map some

theorem ofRuns_mapError {ε δ : Type} (parse : List Token → Side → Except ε Operand)
    (wrong : OperandFault → ε) (e : ε → δ) (shape : Shape) (runs : List (List Token)) :
    (ofRuns parse wrong shape runs).mapError e =
      ofRuns (fun run side => (parse run side).mapError e) (e ∘ wrong) shape runs := by
  match shape, runs with
  | .two op, [b, a] =>
    simp only [ofRuns]
    cases parse b .b with
    | error _ => rfl
    | ok b => cases parse a .a <;> rfl
  | .jump op, [a] | .one op, [a] =>
    simp only [ofRuns]
    cases parse a .a <;> rfl
  | .two op, [] | .two op, [_] | .two op, _ :: _ :: _ :: _ => rfl
  | .jump op, [] | .jump op, _ :: _ :: _ | .one op, [] | .one op, _ :: _ :: _ => rfl

/-- The fault of a line without its quotation is the cause that is found in its tokens. -/
theorem mapError_parse (text : Bytes) (ts : List Token) :
    (parse text ts).mapError Fault.innermost = (reading ts).mapError .value := by
  have hoperand : (fun run side => (parseOperand text run side).mapError Fault.innermost) =
      fun run side => (Operand.parse run side).mapError .value := by
    funext run side
    rw [parseOperand]
    cases Operand.parse run side <;> rfl
  rw [parse_eq, reading]
  cases ts.dropWhile (·.kind == .labelDef) with
  | nil => rfl
  | cons opcode rest =>
    simp only
    cases shape? opcode with
    | none => rfl
    | some shape =>
      have hcomm {ε δ : Type} (e : ε → δ) (r : Except ε Instruction) :
          (r.map some).mapError e = (r.mapError e).map some := by
        cases r <;> rfl
      rw [hcomm, hcomm, ofRuns_mapError, ofRuns_mapError, hoperand]
      rfl

theorem parse_cases (text : Bytes) (ts : List Token) :
    (∃ code, parse text ts = .ok code ∧ reading ts = .ok code) ∨
      ∃ fault cause, parse text ts = .error fault ∧ reading ts = .error cause ∧
        fault.innermost = .value cause := by
  have h := mapError_parse text ts
  cases hp : parse text ts with
  | ok code =>
    cases hr : reading ts with
    | ok code' =>
      rw [hp, hr] at h
      exact .inl ⟨code, rfl, congrArg _ (Except.ok.inj h).symm⟩
    | error cause =>
      rw [hp, hr] at h
      cases h
  | error fault =>
    cases hr : reading ts with
    | ok code =>
      rw [hp, hr] at h
      cases h
    | error cause =>
      rw [hp, hr] at h
      exact .inr ⟨fault, cause, rfl, rfl, Except.error.inj h⟩

theorem reading_map {f : Token → Token} (hf : Token.KeepsForm f) (ts : List Token) :
    reading (ts.map f) = (reading ts).map (Option.map (mapTokens f)) := by
  rw [reading, reading, dropWhile_labelDef_map hf.kind_eq]
  cases ts.dropWhile (·.kind == .labelDef) with
  | nil => rfl
  | cons opcode rest =>
    simp only [List.map_cons, shape?_map hf, operandRuns_map hf, ofRuns_map (Operand.parse_map hf)]
    cases shape? opcode with
    | none => rfl
    | some shape =>
      simp only
      generalize ofRuns Operand.parse id shape (operandRuns rest) = r
      cases r <;> rfl

end Instruction

/-! ## Lines without places -/

/-- What tokens come to that carry meaning, if labels have the addresses `find` gives. -/
def Outcome.ofTokens (find : Bytes → Option Int) (ts : List Token) : Outcome :=
  match (ts.filter (·.kind == .error)).map (·.text) with
  | text :: more => unrecognised (text :: more)
  | [] =>
    match Instruction.reading ts with
    | .error cause => malformed (.value cause)
    | .ok code =>
      match ((ts.filter (·.kind == .labelUse)).map (·.symbol)).find? fun name =>
          (find name).isNone with
      | some label => unknown label
      | none =>
        match code.elim (.ok []) fun c => (c.resolve find).encode with
        | .error cause => valueless (.value cause)
        | .ok ws => assembled (code.elim 0 fun c => (c.size : Int)) (.words ws)

theorem map_filter_atStart {α : Type} {k : Kind} (hk : k.significant = true) {g : Token → α}
    (hg : ∀ t, g t.atStart = g t) (ts : List Token) :
    (((significantTokens ts).map Token.atStart).filter (·.kind == k)).map g =
      (ts.filter (·.kind == k)).map g := by
  have hfilter : (significantTokens ts).filter (·.kind == k) = ts.filter (·.kind == k) := by
    rw [significantTokens, List.filter_filter]
    refine List.filter_congr fun t _ => ?_
    by_cases ht : t.kind = k <;> simp [ht, hk]
  have hcomp : (fun t : Token => t.kind == k) ∘ Token.atStart = fun t => t.kind == k := rfl
  rw [List.filter_map, hcomp, hfilter, List.map_map]
  exact List.map_congr_left fun t _ => hg t

namespace Line

variable {l : Line}

/-- The tokens of a line that carry meaning, wherever they stand. -/
def sense (l : Line) : List Token := l.significant.map Token.atStart

/-- The words of a line that holds an instruction, or nothing. -/
theorem encode_of_none (h : l.directive = none) (find : Bytes → Option Int) (offset size : Int)
    (code : Option Instruction) : (Line.resolve find { l with offset, size, code }).encode =
      ((code.elim (.ok []) fun c => (c.resolve find).encode).mapError .value).map .words := by
  simp only [encode, kind?, resolve, h, Option.map_none]
  cases code with
  | none => rfl
  | some c =>
    simp only [Option.map_some, Option.elim_some]
    cases (c.resolve find).encode <;> rfl

/-- A line without a directive comes to what its tokens come to. -/
theorem outcome_eq (h : l.directive = none) (find : Bytes → Option Int) (offset : Int) :
    l.outcome find offset = .ofTokens find l.sense := by
  have hmeasure : l.measure offset = (Instruction.parse l.text l.significant).map
      fun code => (code.elim 0 fun c => (c.size : Int), code) := by
    rw [measure, h]
    rfl
  have hreading : Instruction.reading l.sense =
      (Instruction.reading l.significant).map (Option.map (Instruction.mapTokens Token.atStart)) :=
    Instruction.reading_map Token.keepsForm_atStart l.significant
  have htexts : (l.sense.filter (·.kind == .error)).map (·.text) =
      (errorTokens l.tokens).map (·.text) := map_filter_atStart rfl (fun _ => rfl) _
  have huses : (l.sense.filter (·.kind == .labelUse)).map (·.symbol) =
      (l.tokens.filter (·.kind == .labelUse)).map (·.symbol) :=
    map_filter_atStart rfl (fun _ => rfl) _
  rw [outcome, Outcome.ofTokens, htexts, huses, hmeasure, hreading]
  cases (errorTokens l.tokens).map (·.text) with
  | cons => rfl
  | nil =>
    rcases Instruction.parse_cases l.text l.significant with
      ⟨code, hparse, hread⟩ | ⟨fault, cause, hparse, hread, hinner⟩
    · have hwords : ((code.map (Instruction.mapTokens Token.atStart)).elim (.ok []) fun c =>
          (c.resolve find).encode) = code.elim (.ok []) fun c => (c.resolve find).encode := by
        cases code with
        | none => rfl
        | some c => exact Instruction.encode_resolve_atStart find c
      have hsize : ((code.map (Instruction.mapTokens Token.atStart)).elim 0 fun c =>
          (c.size : Int)) = code.elim 0 fun c => (c.size : Int) := by
        cases code with
        | none => rfl
        | some c => exact congrArg Int.ofNat (Instruction.size_mapTokens c)
      simp only [hparse, hread, Except.map, unknown?, encode_of_none h, hwords, hsize]
      split
      · rfl
      · cases code.elim (.ok []) fun c => (c.resolve find).encode <;> rfl
    · simp only [hparse, hread, Except.map, hinner]

end Line

/-! ## Texts that assemble alike -/

/-- Two texts as lines of the same program, where no defines are in force : the one is read if the
other is, and the same becomes of them at every address, whatever the addresses of labels. -/
structure AssembleAlike (s t : Bytes) : Prop where
  read_iff {doc : Document} {number : Nat} {p : Progress} (hp : p.defines.entries = []) :
    (∃ r, (readLine doc number s p).result = .ok r) ↔ ∃ r, (readLine doc number t p).result = .ok r
  outcome_eq {doc : Document} {number : Nat} {p q r : Progress} {l m : Line}
    (hp : p.defines.entries = []) (hl : (readLine doc number s p).result = .ok (l, q))
    (hm : (readLine doc number t p).result = .ok (m, r)) (find : Bytes → Option Int)
    (offset : Int) : l.outcome find offset = m.outcome find offset

/-- A token from a lexeme, at the start of a line. -/
def Token.ofLexeme (l : Lexeme) : Token := ⟨l, 0, .initial, []⟩

theorem Token.atStart_named (scope : Bytes) (t : Token) :
    (t.named scope).atStart = t.atStart.named scope := by
  have hkind : t.atStart.kind = t.kind := rfl
  unfold named
  rw [hkind]
  split <;> rfl

theorem atStart_nameTokens (mode : Mode) (scope : Bytes) (n : Nat) (ls : List Lexeme) :
    (significantTokens (nameTokens scope (Lexer.place mode n ls))).map Token.atStart =
      nameTokens scope ((ls.filter (·.kind.significant)).map Token.ofLexeme) := by
  induction ls generalizing scope n with
  | nil => rfl
  | cons l ls ih =>
    rw [Lexer.place, nameTokens, significantTokens, List.filter_cons, Token.named_kind,
      List.filter_cons]
    by_cases hl : l.kind.significant = true
    · rw [if_pos hl, if_pos hl, List.map_cons, Token.atStart_named]
      exact congrArg _ (ih _ _)
    · -- a token without meaning opens no scope
      have hscope : (qualify scope l).2 = scope := by
        have hopens : (⟨l, n, mode, []⟩ : Token).opensScope = false := by
          refine Bool.eq_false_iff.2 fun hopens => hl ?_
          rw [beq_iff_eq.1 (Bool.and_eq_true_iff.1 hopens).1]
          rfl
        rw [qualify_snd scope ⟨l, n, mode, []⟩, hopens]
        rfl
      rw [if_neg hl, if_neg hl, ← ih scope (n + l.text.length)]
      simp only [hscope]
      rfl

/-- The tokens with their names that a text comes to, read below the global label `scope`. -/
def sensed (scope s : Bytes) : List Token :=
  nameTokens scope ((Lexer.sense {} s).map Token.ofLexeme)

section Read

variable {doc : Document} {number : Nat} {s t : Bytes} {p q : Progress} {l : Line}

theorem directive_of_sense (h : ∀ l ∈ Lexer.sense {} s, l.kind ≠ .directive) (mode : Mode) :
    Directive.ofTokens? (lex mode s) = none := by
  refine Directive.ofTokens?_of_forall fun t ht hk => ?_
  have hmem : t.toLexeme ∈ Lexer.sense {} s :=
    List.mem_filter.2 ⟨Lexer.mem_place ht, by rw [hk]; rfl⟩
  exact h _ hmem hk

/-- Where no defines are in force, a line without a directive is read as it is written, unless a
label of it is known already. -/
theorem readLine_of_sense (hp : p.defines.entries = [])
    (hd : ∀ l ∈ Lexer.sense {} s, l.kind ≠ .directive) :
    (∀ l q, (readLine doc number s p).result = .ok (l, q) →
      l.directive = none ∧ l.sense = sensed p.scope s) ∧
    ((∃ r, (readLine doc number s p).result = .ok r) ↔
      clash? p.symbols.key p.symbols.labels (definitionsOf ⟨doc.name, number, s⟩ p.count
        (nameTokens p.scope (lex .initial s))) = none) := by
  have hnone := directive_of_sense hd .initial
  have happly : (applyDefines ⟨doc.name, number, s⟩ p.defines).result =
      .ok (.ofText .initial s, p.defines) :=
    applyDefines_of_nil hp (by rw [Reading.ofText, hnone]; rintro ⟨⟩)
  constructor
  · intro l q h
    obtain ⟨r, ds, hr, -, rfl, -⟩ := readLine_eq_ok.1 h
    rw [happly] at hr
    obtain ⟨rfl, -⟩ := Prod.mk.inj (Except.ok.inj hr)
    exact ⟨hnone, atStart_nameTokens .initial p.scope 0 (lexemes s)⟩
  · constructor
    · rintro ⟨⟨l, q⟩, h⟩
      obtain ⟨r, ds, hr, hclash, -, -⟩ := readLine_eq_ok.1 h
      rw [happly] at hr
      obtain ⟨rfl, -⟩ := Prod.mk.inj (Except.ok.inj hr)
      exact hclash
    · exact fun hclash => ⟨_, readLine_eq_ok.2 ⟨_, _, happly, hclash, rfl, rfl⟩⟩

theorem names_eq_sensed (site : Site) (index : Nat) (scope s : Bytes) :
    (definitionsOf site index (nameTokens scope (lex .initial s))).map (·.name) =
      ((sensed scope s).filter (·.kind == .labelDef)).map (·.symbol) := by
  rw [map_name_definitionsOf, sensed, Lexer.sense, ← atStart_nameTokens .initial scope 0]
  exact (map_filter_atStart rfl (fun _ => rfl) _).symm

end Read

/-- Tokens with the same labels, with the same text that is not recognised and with the same
instruction. -/
structure Synonymous (ts us : List Token) : Prop where
  filter_eq : ∀ k ∈ [Kind.labelDef, .labelUse, .error],
    ts.filter (·.kind == k) = us.filter (·.kind == k)
  reading_eq : Instruction.reading ts = Instruction.reading us

theorem Synonymous.ofTokens_eq {ts us : List Token} (h : Synonymous ts us)
    (find : Bytes → Option Int) : Outcome.ofTokens find ts = Outcome.ofTokens find us := by
  unfold Outcome.ofTokens
  rw [h.filter_eq .error (by simp), h.filter_eq .labelUse (by simp), h.reading_eq]

/-- Texts of instructions assemble alike if they come to tokens that do. -/
theorem assembleAlike_of_sense {s t : Bytes} (hs : ∀ l ∈ Lexer.sense {} s, l.kind ≠ .directive)
    (ht : ∀ l ∈ Lexer.sense {} t, l.kind ≠ .directive)
    (h : ∀ scope, Synonymous (sensed scope s) (sensed scope t)) : AssembleAlike s t where
  read_iff {doc number p} hp := by
    have hnames : (definitionsOf ⟨doc.name, number, s⟩ p.count
          (nameTokens p.scope (lex .initial s))).map (·.name) =
        (definitionsOf ⟨doc.name, number, t⟩ p.count
          (nameTokens p.scope (lex .initial t))).map (·.name) := by
      rw [names_eq_sensed, names_eq_sensed, (h p.scope).filter_eq .labelDef (by simp)]
    rw [(readLine_of_sense hp hs).2, (readLine_of_sense hp ht).2]
    exact ⟨clash?_eq_none_congr rfl hnames, clash?_eq_none_congr rfl hnames.symm⟩
  outcome_eq {doc number p q r l m} hp hl hm find offset := by
    obtain ⟨hdl, hsl⟩ := (readLine_of_sense hp hs).1 l q hl
    obtain ⟨hdm, hsm⟩ := (readLine_of_sense hp ht).1 m r hm
    rw [Line.outcome_eq hdl, Line.outcome_eq hdm, hsl, hsm, (h p.scope).ofTokens_eq find]

end Asm16
