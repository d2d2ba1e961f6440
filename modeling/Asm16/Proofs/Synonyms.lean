import Asm16.Proofs.OperandPlaces
import Asm16.Proofs.Reassembly

/-!
# Spellings of the same

An instruction can be written in more than one way. `JMP` is `SET PC`, and an operand on the stack
is written as `PICK` or as an address at `SP`, in either order.

`JMP x` and `SET PC, x` are lexed alike behind the opcode and behind the comma, and their operands
are counted alike, so the same becomes of them for every text `x`. An operand text tells an operand
if it is read as that operand wherever an operand may stand (`Lexer.Tells`); two texts that tell the
same operand assemble alike in any line (`Lexer.Tells.assembleAlike`). That all spellings of an
operand tell the same rests on arithmetic being cut into the same lexemes in each of them
(`Lexer.IsArithmetic.exists_cutsInto`).
-/

namespace Asm16

open Lexer

/-- The kinds of what an operand is written with beside its arithmetic. -/
def Kind.isSetting : Kind → Bool
  | register | operator | stackAccess | addressStart | addressEnd | pickStart | pickEnd => true
  | _ => false

/-- An operand with a word for the arithmetic of some lexemes, read below the global label
`scope`. -/
def Operand.withWord (code : OperandCode) (es : List Lexeme) (scope : Bytes) : Operand :=
  ⟨code, some (nameTokens scope (es.map Token.ofLexeme))⟩

/-! ## Pieces of operands -/

namespace Lexer

section Pieces

variable {st st' : State} {d : Int} {pick : Option Int} {v : Bool} {s tail : Bytes}

theorem sense_of_run {l : Lexeme} (h : run st s = l :: run st' tail)
    (hl : l.kind.significant = true) : sense st s = l :: sense st' tail := by
  rw [sense, h, List.filter_cons, if_pos hl]
  rfl

theorem sense_open : sense (among d pick v) (byte '[' :: s) =
    plain .addressStart [byte '['] :: sense (among (d + 1) pick false) s :=
  sense_of_run run_among_open rfl

theorem sense_close : sense (among d pick v) (byte ']' :: s) =
    plain .addressEnd [byte ']'] :: sense (among (d + -1) pick true) s :=
  sense_of_run run_among_close rfl

theorem sense_plus : sense (among d pick true) (byte '+' :: s) =
    plain .operator [byte '+'] :: sense (among d pick false) s :=
  sense_of_run run_among_plus rfl

theorem sense_comma : sense (among d none v) (byte ',' :: s) =
    plain .separator [byte ','] :: sense (among d none false) s :=
  sense_of_run (run_among_comma (.inl rfl)) rfl

/-- Behind an opcode there is nothing but parts of operands. -/
theorem isPart_of_sense : ∀ l ∈ sense (among d pick v) s, l.kind.isPart = true := by
  intro l hl
  obtain ⟨hl, hsig⟩ := List.mem_filter.1 hl
  exact isPart_of_run rfl rfl rfl _ (List.mem_filter.2 ⟨List.mem_map_of_mem hl, hsig⟩)

end Pieces

/-! ## Where operands end -/

/-- A text behind an operand : there is nothing but white space up to a comma, a comment or the end
of the line. -/
def Closes (back : Bytes) : Prop :=
  ∀ c, (back.dropWhile isBlank).head? = some c → c = byte ',' ∨ c = byte ';'

namespace Closes

variable {back : Bytes}

theorem stops (h : Closes back) : Stops back := by
  intro c hc
  cases back with
  | nil => cases hc
  | cons c' rest =>
    obtain rfl := Option.some.inj hc
    by_cases hblank : isBlank c' = true
    · grind [isWordByte, isBlank, isLetter, isLower, isUpper, isDigit]
    · rw [Closes, List.dropWhile_cons_of_neg hblank] at h
      rcases h c' rfl with rfl | rfl <;> rfl

/-- Behind an operand an open `PICK` ends, and a separator is next, if anything is. -/
theorem sense_eq (h : Closes back) (d : Int) :
    sense (among d (some d) true) back = mark .pickEnd :: sense (among d none true) back ∧
      ∀ l, (sense (among d none true) back).head? = some l → l.kind = .separator := by
  rw [← sense_dropWhile _ back, ← sense_dropWhile (among d none true) back]
  unfold Closes at h
  cases hback : back.dropWhile isBlank with
  | nil =>
    simp only [sense, run_among_nil]
    exact ⟨rfl, by rintro _ ⟨⟩⟩
  | cons c rest =>
    rcases h c (by rw [hback]; rfl) with rfl | rfl
    · constructor
      · simp only [sense, run_among_comma (.inr rfl), run_among_comma (.inl rfl)]
        rfl
      · rw [sense_comma]
        rintro _ ⟨⟩
        rfl
    · have hcomment (pick : Option Int) : sense (among d pick true) (byte ';' :: rest) =
          pickEnds pick := by
        have hstep : step (among d pick true) (byte ';') rest =
            ⟨pickEnds pick ++ [plain .comment (byte ';' :: rest)], among d none false, []⟩ := by
          cases pick <;> rfl
        rw [sense_cons, hstep, sense, run_among_nil]
        cases pick <;> rfl
      rw [hcomment, hcomment]
      exact ⟨rfl, by rintro _ ⟨⟩⟩

end Closes

/-! ## Texts of operands -/

/-- A text up to an operand : it is read the same whatever follows, and the operand behind it is
read afresh. An opcode with a blank is such a text (`Opens.mnemonic`), and so is a first operand
with a comma (`Opens.comma`). -/
def Opens (front : Bytes) : Prop :=
  ∃ (fs : List Lexeme) (d : Int), OperandNext (fs.map (·.kind)) ∧
    (∀ l ∈ fs, l.kind ≠ .directive) ∧
    ∀ s, sense {} (front ++ s) = fs ++ sense (among d none false) s

/-- A text that is cut into the lexemes `ls` wherever an operand may stand, which are the operand
`o scope` where labels are read below the global label `scope`. -/
structure Tells (u : Bytes) (ls : List Lexeme) (o : Bytes → Operand) : Prop where
  sense_eq {back : Bytes} (h : Closes back) (d : Int) :
    sense (among d none false) (u ++ back) = ls ++ sense (among d none true) back
  kind_ne : ∀ l ∈ ls, l.kind ≠ .error ∧ l.kind ≠ .separator
  form (scope : Bytes) (side : Side) :
    Operand.Form side (nameTokens scope (ls.map Token.ofLexeme)) (o scope)
  labelUses_eq (scope : Bytes) :
    (nameTokens scope (ls.map Token.ofLexeme)).filter (·.kind == .labelUse) = (o scope).labelUses

namespace Tells

variable {u u' front back : Bytes} {ls ls' : List Lexeme} {o : Bytes → Operand}

theorem isPart (h : Tells u ls o) : ∀ l ∈ ls, l.kind.isPart = true := by
  intro l hl
  have hcloses : Closes [] := nofun
  have hmem : l ∈ sense (among 0 none false) (u ++ []) := by
    rw [h.sense_eq hcloses]
    exact List.mem_append_left _ hl
  exact isPart_of_sense l hmem

theorem kind_ne_labelDef (h : Tells u ls o) : ∀ l ∈ ls, l.kind ≠ .labelDef := fun l hl =>
  Kind.ne_of_class (h.isPart l hl) rfl

theorem filter_eq (h : Tells u ls o) (h' : Tells u' ls' o) (scope : Bytes) :
    ∀ k ∈ [Kind.labelDef, .labelUse, .error],
      (nameTokens scope (ls.map Token.ofLexeme)).filter (·.kind == k) =
        (nameTokens scope (ls'.map Token.ofLexeme)).filter (·.kind == k) := by
  simp only [List.forall_mem_cons, List.not_mem_nil, false_implies, implies_true, and_true]
  refine ⟨?_, ?_, ?_⟩
  · rw [filter_nameTokens_eq_nil h.kind_ne_labelDef, filter_nameTokens_eq_nil h'.kind_ne_labelDef]
  · rw [h.labelUses_eq, h'.labelUses_eq]
  · rw [filter_nameTokens_eq_nil fun l hl => (h.kind_ne l hl).1,
      filter_nameTokens_eq_nil fun l hl => (h'.kind_ne l hl).1]

/-- Two texts that tell the same operand assemble alike in any line. -/
theorem assembleAlike (h : Tells u ls o) (h' : Tells u' ls' o) (hf : Opens front)
    (hb : Closes back) : AssembleAlike (front ++ (u ++ back)) (front ++ (u' ++ back)) := by
  obtain ⟨fs, d, hnext, hdirective, hfront⟩ := hf
  have hkinds (s : Bytes) : ∀ l ∈ sense {} (front ++ s), l.kind ≠ .directive := by
    rw [hfront]
    exact List.forall_mem_append.2
      ⟨hdirective, fun l hl => Kind.ne_of_class (isPart_of_sense l hl) rfl⟩
  refine assembleAlike_of_sense (hkinds _) (hkinds _) fun scope => ?_
  -- an operand defines no labels, so those behind it are named as if it were not there
  have hsensed {u : Bytes} {ls : List Lexeme} (h : Tells u ls o) :
      sensed scope (front ++ (u ++ back)) = nameTokens scope (fs.map Token.ofLexeme) ++
        (nameTokens (scopeAfter scope (fs.map Token.ofLexeme)) (ls.map Token.ofLexeme) ++
          nameTokens (scopeAfter scope (fs.map Token.ofLexeme))
            ((sense (among d none true) back).map Token.ofLexeme)) := by
    have hlabels : ∀ t ∈ ls.map Token.ofLexeme, t.kind ≠ .labelDef :=
      List.forall_mem_map.2 h.kind_ne_labelDef
    rw [sensed, hfront, h.sense_eq hb, List.map_append, nameTokens_append, List.map_append,
      nameTokens_append, scopeAfter_of_ne hlabels]
  rw [hsensed h, hsensed h']
  generalize scopeAfter scope (fs.map Token.ofLexeme) = below
  constructor
  · intro k hk
    simp only [List.filter_append, filter_eq h h' below k hk]
  · have hbefore : OperandNext ((nameTokens scope (fs.map Token.ofLexeme)).map (·.kind)) := by
      rwa [map_kind_nameTokens]
    have hafter : ∀ t, (nameTokens below ((sense (among d none true) back).map
        Token.ofLexeme)).head? = some t → t.kind = .separator := by
      intro t ht
      have hhead := congrArg List.head? (map_kind_nameTokens below (sense (among d none true) back))
      rw [List.head?_map, List.head?_map, ht] at hhead
      obtain ⟨l, hl, hk⟩ := Option.map_eq_some_iff.1 hhead.symm
      exact hk.symm.trans ((hb.sense_eq d).2 l hl)
    have hseparator {u : Bytes} {ls : List Lexeme} (h : Tells u ls o) :
        ∀ t ∈ nameTokens below (ls.map Token.ofLexeme), t.kind ≠ .separator :=
      forall_kind_nameTokens (P := (· ≠ .separator)) (fun l hl => (h.kind_ne l hl).2) below
    exact Instruction.reading_congr hbefore hafter (h.form below .a).ne_nil (hseparator h)
      (h'.form below .a).ne_nil (hseparator h') fun side => by
        rw [(h.form below side).parse_eq, (h'.form below side).parse_eq]

end Tells

namespace Opens

variable {front u : Bytes} {ls : List Lexeme} {o : Bytes → Operand}

/-- The first operand stands behind the opcode. -/
theorem mnemonic {name : Bytes} {k : Kind} (hname : isDefineKey name = true)
    (hk : IsMnemonic name k) : Opens (name ++ [byte ' ']) := by
  have hkind : k = .basicOpcode ∨ k = .specialOpcode := hk.imp And.left And.left
  have hnext : OperandNext ([] ++ [k]) :=
    .opcode (by simp) (by rcases hkind with rfl | rfl <;> decide)
  refine ⟨[plain k name], 0, hnext, ?_, fun s => ?_⟩
  · rw [List.forall_mem_singleton]
    rcases hkind with rfl | rfl <;> exact Kind.noConfusion
  · have hblank : isBlank (byte ' ') = true := rfl
    rw [List.append_assoc, List.singleton_append, List.singleton_append,
      ← sense_blank (among 0 none false) hblank]
    exact sense_of_run (run_mnemonic hname hk s) (by rcases hkind with rfl | rfl <;> rfl)

theorem blank (h : Opens front) : Opens (front ++ [byte ' ']) := by
  obtain ⟨fs, d, hnext, hdirective, hfront⟩ := h
  refine ⟨fs, d, hnext, hdirective, fun s => ?_⟩
  rw [List.append_assoc, hfront, List.singleton_append, sense_blank _ rfl]

/-- The second operand stands behind the first and a comma. -/
theorem comma (h : Opens front) (hu : Tells u ls o) : Opens (front ++ (u ++ [byte ','])) := by
  obtain ⟨fs, d, -, hdirective, hfront⟩ := h
  have hcloses (s : Bytes) : Closes (byte ',' :: s) := by
    rintro c ⟨⟩
    exact .inl rfl
  have hread (s : Bytes) : sense {} (front ++ (u ++ [byte ',']) ++ s) =
      fs ++ ls ++ [plain .separator [byte ',']] ++ sense (among d none false) s := by
    rw [List.append_assoc, hfront, List.append_assoc, List.singleton_append,
      hu.sense_eq (hcloses s), sense_comma]
    simp only [List.append_assoc, List.singleton_append]
  refine ⟨_, d, ?_, ?_, hread⟩
  · rw [List.map_append]
    exact .separator
  · have hpart : ∀ l ∈ ls, l.kind ≠ .directive := fun l hl => Kind.ne_of_class (hu.isPart l hl) rfl
    refine List.forall_mem_append.2 ⟨List.forall_mem_append.2 ⟨hdirective, hpart⟩, ?_⟩
    rw [List.forall_mem_singleton]
    exact Kind.noConfusion

end Opens

/-! ## Spellings of operands -/

/-- A word for what an offset can be added to, and the code of the sum. -/
structure IsIndex (w : Bytes) (code : OperandCode) : Prop where
  sense_eq {d : Int} {pick : Option Int} {v : Bool} {tail : Bytes} (h : Stops tail) :
    sense (among d pick v) (w ++ tail) = plain .register w :: sense (among d pick true) tail
  form {side : Side} {ts inner e : List Token} (hb : Operand.Bracketed inner ts)
    (ho : Operand.Offset inner (.ofLexeme (plain .register w)) e) (he : IsExpression e) :
    Operand.Form side ts ⟨code, some e⟩

theorem isIndex_register (r : Register) : IsIndex r.name (.atRegisterPlus r) where
  sense_eq h := sense_of_run (OperandCode.run_among_name r h) rfl
  form hb ho he := .atRegisterPlus hb ho he (OperandCode.registerCode_name rfl)

theorem isIndex_sp : IsIndex "SP" .pick where
  sense_eq h := sense_of_run (run_among_word rfl (List.all_eq_true.1 rfl) h) rfl
  form hb ho he := .atStackPlus hb ho he rfl

/-- Arithmetic in its setting. -/
theorem Tells.of_arithmetic {u e : Bytes} {es before after : List Lexeme} (he : CutsInto e es)
    {code : OperandCode} (hb : ∀ l ∈ before, l.kind.isSetting = true)
    (ha : ∀ l ∈ after, l.kind.isSetting = true)
    (hsense : ∀ {back : Bytes} (_ : Closes back) (d : Int), sense (among d none false) (u ++ back) =
      before ++ (es ++ after) ++ sense (among d none true) back)
    (hform : ∀ {side : Side} {ts : List Token}, IsExpression ts → Operand.Form side
      (before.map Token.ofLexeme ++ (ts ++ after.map Token.ofLexeme)) ⟨code, some ts⟩) :
    Tells u (before ++ (es ++ after)) (Operand.withWord code es) := by
  have hsetting {ls : List Lexeme} (h : ∀ l ∈ ls, l.kind.isSetting = true) :
      ∀ t ∈ ls.map Token.ofLexeme, t.kind ≠ .labelDef ∧ t.kind ≠ .labelUse :=
    List.forall_mem_map.2 fun l hl =>
      ⟨Kind.ne_of_class (h l hl) rfl, Kind.ne_of_class (h l hl) rfl⟩
  have harith (scope : Bytes) : IsExpression (nameTokens scope (es.map Token.ofLexeme)) := by
    refine ⟨fun hnil => he.ne_nil ?_, ?_⟩
    · have hkinds := map_kind_nameTokens scope es
      rw [hnil] at hkinds
      exact List.map_eq_nil_iff.1 hkinds.symm
    · exact forall_kind_nameTokens (P := fun k => k.isArithmetic = true) he.isArithmetic scope
  have hnames (scope : Bytes) : nameTokens scope ((before ++ (es ++ after)).map Token.ofLexeme) =
      before.map Token.ofLexeme ++
        (nameTokens scope (es.map Token.ofLexeme) ++ after.map Token.ofLexeme) := by
    have hes : ∀ t ∈ es.map Token.ofLexeme, t.kind ≠ .labelDef :=
      List.forall_mem_map.2 fun l hl => Kind.ne_of_class (he.isArithmetic l hl) rfl
    rw [List.map_append, List.map_append, nameTokens_append, nameTokens_of_forall (hsetting hb),
      scopeAfter_of_ne fun t ht => (hsetting hb t ht).1, nameTokens_append, scopeAfter_of_ne hes,
      nameTokens_of_forall (hsetting ha)]
  refine ⟨hsense, ?_, fun scope side => ?_, fun scope => ?_⟩
  · have hne {p : Kind → Bool} {ls : List Lexeme} (h : ∀ l ∈ ls, p l.kind = true)
        (herror : p .error = false) (hseparator : p .separator = false) :
        ∀ l ∈ ls, l.kind ≠ .error ∧ l.kind ≠ .separator := fun l hl =>
      ⟨Kind.ne_of_class (h l hl) herror, Kind.ne_of_class (h l hl) hseparator⟩
    exact List.forall_mem_append.2 ⟨hne hb rfl rfl,
      List.forall_mem_append.2 ⟨hne he.isArithmetic rfl rfl, hne ha rfl rfl⟩⟩
  · rw [hnames]
    exact hform (harith scope)
  · have hnil {ls : List Lexeme} (h : ∀ l ∈ ls, l.kind.isSetting = true) :
        (ls.map Token.ofLexeme).filter (·.kind == .labelUse) = [] :=
      List.filter_eq_nil_iff.2 fun t ht => by simpa using (hsetting h t ht).2
    rw [hnames, List.filter_append, List.filter_append, hnil hb, hnil ha, List.nil_append,
      List.append_nil]
    rfl

/-- An operand without arithmetic. -/
theorem Tells.of_setting {u : Bytes} {ls : List Lexeme} {code : OperandCode}
    (h : ∀ l ∈ ls, l.kind.isSetting = true)
    (hsense : ∀ {back : Bytes} (_ : Closes back) (d : Int), sense (among d none false) (u ++ back) =
      ls ++ sense (among d none true) back)
    (hform : ∀ side, Operand.Form side (ls.map Token.ofLexeme) ⟨code, none⟩) :
    Tells u ls fun _ => ⟨code, none⟩ := by
  have hnames (scope : Bytes) : nameTokens scope (ls.map Token.ofLexeme) = ls.map Token.ofLexeme :=
    nameTokens_of_forall (List.forall_mem_map.2 fun l hl =>
      ⟨Kind.ne_of_class (h l hl) rfl, Kind.ne_of_class (h l hl) rfl⟩) scope
  refine ⟨hsense, fun l hl => ?_, fun scope side => ?_, fun scope => ?_⟩
  · exact ⟨Kind.ne_of_class (h l hl) rfl, Kind.ne_of_class (h l hl) rfl⟩
  · rw [hnames]
    exact hform side
  · exact filter_nameTokens_eq_nil (fun l hl => Kind.ne_of_class (h l hl) rfl) scope

section Operands

variable {e w : Bytes} {es : List Lexeme} {code : OperandCode}

theorem tells_pick (he : CutsInto e es) :
    Tells ("PICK " ++ e) ([plain .pickStart "PICK"] ++ (es ++ [mark .pickEnd]))
      (Operand.withWord .pick es) := by
  refine .of_arithmetic he (by decide) (by decide) (fun {back} hb d => ?_) fun hts => ?_
  · have hpick : sense (among d none false) ("PICK" ++ byte ' ' :: (e ++ back)) =
        plain .pickStart "PICK" :: sense (among d (some d) false) (byte ' ' :: (e ++ back)) :=
      sense_of_run (run_among_word rfl (List.all_eq_true.1 rfl) (stops_cons rfl _)) rfl
    have htext : ("PICK " ++ e : Bytes) ++ back = "PICK" ++ byte ' ' :: (e ++ back) := rfl
    rw [htext, hpick, sense_blank _ rfl, he.sense_eq hb.stops, (hb.sense_eq d).1]
    simp
  · exact .pick rfl rfl hts

theorem tells_index_front (he : CutsInto e es) (hw : IsIndex w code) :
    Tells ("[" ++ w ++ "+" ++ e ++ "]")
      ([plain .addressStart [byte '['], plain .register w, plain .operator [byte '+']] ++
        (es ++ [plain .addressEnd [byte ']']])) (Operand.withWord code es) := by
  refine .of_arithmetic he (by simp [plain, Kind.isSetting]) (by simp [plain, Kind.isSetting])
    (fun {back} hb d => ?_) fun hts => ?_
  · have htext : ("[" ++ w ++ "+" ++ e ++ "]" : Bytes) ++ back =
        byte '[' :: (w ++ byte '+' :: (e ++ byte ']' :: back)) := by
      simp only [List.append_assoc]
      rfl
    rw [htext, sense_open, hw.sense_eq (stops_cons rfl _), sense_plus,
      he.sense_eq (stops_cons rfl _), sense_close, Int.add_neg_cancel_right]
    simp
  · exact hw.form ⟨_, _, rfl, rfl, rfl⟩ (.plus rfl rfl) hts

theorem tells_index_behind (he : CutsInto e es) (hw : IsIndex w code) :
    Tells ("[" ++ e ++ "+" ++ w ++ "]")
      ([plain .addressStart [byte '[']] ++
        (es ++ [plain .operator [byte '+'], plain .register w, plain .addressEnd [byte ']']]))
      (Operand.withWord code es) := by
  refine .of_arithmetic he (by simp [plain, Kind.isSetting]) (by simp [plain, Kind.isSetting])
    (fun {back} hb d => ?_) fun {side ts} hts => ?_
  · have htext : ("[" ++ e ++ "+" ++ w ++ "]" : Bytes) ++ back =
        byte '[' :: (e ++ byte '+' :: (w ++ byte ']' :: back)) := by
      simp only [List.append_assoc]
      rfl
    rw [htext, sense_open, he.sense_eq (stops_cons rfl _), sense_plus,
      hw.sense_eq (stops_cons rfl _), sense_close, Int.add_neg_cancel_right]
    simp
  · have hbracketed : Operand.Bracketed
        (ts ++ [.ofLexeme (plain .operator [byte '+']), .ofLexeme (plain .register w)]) _ :=
      ⟨.ofLexeme (plain .addressStart [byte '[']), .ofLexeme (plain .addressEnd [byte ']']), rfl,
        rfl, rfl⟩
    have hform : Operand.Form side _ _ := hw.form hbracketed (.behind rfl rfl) hts
    simpa using hform

theorem tells_peek : Tells "PEEK" [plain .stackAccess "PEEK"] fun _ => ⟨.peek, none⟩ := by
  refine .of_setting (by decide) (fun {back} hb d => ?_) fun side => .peek rfl rfl
  exact sense_of_run (run_among_word rfl (List.all_eq_true.1 rfl) hb.stops) rfl

theorem tells_top : Tells "[SP]"
    [plain .addressStart [byte '['], plain .register "SP", plain .addressEnd [byte ']']]
    fun _ => ⟨.peek, none⟩ := by
  refine .of_setting (by decide) (fun {back} hb d => ?_) fun side => ?_
  · have htext : ("[SP]" : Bytes) ++ back = byte '[' :: ("SP" ++ byte ']' :: back) := rfl
    rw [htext, sense_open, isIndex_sp.sense_eq (stops_cons rfl _), sense_close,
      Int.add_neg_cancel_right]
    rfl
  · exact .atStack ⟨_, _, rfl, rfl, rfl⟩ rfl rfl

end Operands

/-! ## Jumps -/

theorem sense_jmp (x : Bytes) : sense {} ("JMP " ++ x) =
    plain .basicOpcode "JMP" :: sense (among 0 none false) x := by
  have htext : ("JMP " ++ x : Bytes) = byte 'J' :: byte 'M' :: byte 'P' :: byte ' ' :: x := rfl
  have hrun : run {} (byte 'J' :: byte 'M' :: byte 'P' :: byte ' ' :: x) =
      plain .basicOpcode "JMP" :: run (among 0 none false) (byte ' ' :: x) := by
    rw [run_cons]
    rfl
  rw [htext, sense_of_run hrun rfl, sense_blank _ rfl]

theorem sense_setPc (x : Bytes) : sense {} ("SET PC, " ++ x) =
    plain .basicOpcode "SET" :: plain .register "PC" :: plain .separator [byte ','] ::
      sense (among 0 none false) x := by
  have htext : ("SET PC, " ++ x : Bytes) =
      "SET" ++ byte ' ' :: ("PC" ++ byte ',' :: byte ' ' :: x) := rfl
  have hset (s : Bytes) : sense {} ("SET" ++ byte ' ' :: s) =
      plain .basicOpcode "SET" :: sense (among 0 none false) (byte ' ' :: s) :=
    sense_of_run (run_mnemonic rfl (.inl ⟨rfl, rfl⟩) s) rfl
  have hpc {s : Bytes} (h : Stops s) : sense (among 0 none false) ("PC" ++ s) =
      plain .register "PC" :: sense (among 0 none true) s :=
    sense_of_run (run_among_word rfl (List.all_eq_true.1 rfl) h) rfl
  rw [htext, hset, sense_blank _ rfl, hpc (stops_cons rfl _), sense_comma, sense_blank _ rfl]

end Lexer

/-- A jump has the instruction of `SET PC` with the same operand, or there is the same cause why it
has none. -/
theorem Instruction.reading_jump (ts : List Token) :
    reading (.ofLexeme (plain .basicOpcode "JMP") :: ts) =
      reading (.ofLexeme (plain .basicOpcode "SET") :: .ofLexeme (plain .register "PC") ::
        .ofLexeme (plain .separator [byte ',']) :: ts) := by
  rw [reading_cons Kind.noConfusion, reading_cons Kind.noConfusion]
  by_cases hts : ts = []
  · subst hts
    rfl
  · have hpc : ∀ t ∈ [Token.ofLexeme (plain .register "PC")], t.kind ≠ .separator :=
      List.forall_mem_singleton.2 Kind.noConfusion
    have hcomma : (Token.ofLexeme (plain .separator [byte ','])).kind = .separator := rfl
    have hruns := operandRuns_append hts hpc hcomma
    rw [List.singleton_append] at hruns
    obtain ⟨run, more, hmore⟩ := List.exists_cons_of_ne_nil (operandRuns_ne_nil hts)
    rw [hruns, hmore]
    cases more <;> rfl

/-- The same becomes of the lines `JMP x` and `SET PC, x`. -/
theorem assembleAlike_jump (x : Bytes) : AssembleAlike ("JMP " ++ x) ("SET PC, " ++ x) := by
  have hoperands : ∀ l ∈ sense (among 0 none false) x, l.kind ≠ .directive := fun l hl =>
    Kind.ne_of_class (isPart_of_sense l hl) rfl
  refine assembleAlike_of_sense ?_ ?_ fun scope => ?_
  · rw [sense_jmp]
    exact List.forall_mem_cons.2 ⟨Kind.noConfusion, hoperands⟩
  · rw [sense_setPc]
    simp only [List.forall_mem_cons]
    exact ⟨Kind.noConfusion, Kind.noConfusion, Kind.noConfusion, hoperands⟩
  · have hname {l : Lexeme} (hd : l.kind ≠ .labelDef) (hu : l.kind ≠ .labelUse) (ls : List Lexeme) :
        nameTokens scope ((l :: ls).map Token.ofLexeme) =
          .ofLexeme l :: nameTokens scope (ls.map Token.ofLexeme) := nameTokens_cons_of_ne hd hu ..
    rw [sensed, sense_jmp, hname Kind.noConfusion Kind.noConfusion, sensed, sense_setPc,
      hname Kind.noConfusion Kind.noConfusion, hname Kind.noConfusion Kind.noConfusion,
      hname Kind.noConfusion Kind.noConfusion]
    refine ⟨fun k hk => ?_, Instruction.reading_jump _⟩
    simp only [List.mem_cons, List.not_mem_nil, or_false] at hk
    rcases hk with rfl | rfl | rfl <;> rfl

/-- A jump is always read, as there is no label to be defined twice. -/
theorem exists_readLine_jump {doc : Document} {number : Nat} {p : Progress}
    (hp : p.defines.entries = []) (x : Bytes) :
    ∃ r, (readLine doc number ("JMP " ++ x) p).result = .ok r := by
  have hkinds {k : Kind} (hk : k = .directive ∨ k = .labelDef) :
      ∀ l ∈ sense {} ("JMP " ++ x), l.kind ≠ k := by
    rw [sense_jmp]
    refine List.forall_mem_cons.2 ⟨?_, fun l hl => Kind.ne_of_class (isPart_of_sense l hl) ?_⟩
    · rcases hk with rfl | rfl <;> exact Kind.noConfusion
    · rcases hk with rfl | rfl <;> rfl
  have hnames := names_eq_sensed ⟨doc.name, number, "JMP " ++ x⟩ p.count p.scope ("JMP " ++ x)
  rw [sensed, filter_nameTokens_eq_nil (hkinds (.inr rfl))] at hnames
  refine (readLine_of_sense hp (hkinds (.inl rfl))).2.2 ?_
  rw [List.map_eq_nil_iff.1 hnames]
  rfl

/-! ## Spellings of instructions -/

/-- Spellings that assemble alike, where no defines are in force : `JMP x` and `SET PC, x` for every
text `x`, and wherever an operand may stand, `[SP]` and `PEEK`, and for every arithmetic text `e`
the three ways to write an operand on the stack, and a register and an offset in either order. -/
theorem spellings_assembleAlike :
    (∀ x : Bytes, AssembleAlike ("JMP " ++ x) ("SET PC, " ++ x) ∧
      ∀ {doc : Document} {number : Nat} {p : Progress}, p.defines.entries = [] →
        ∃ r, (readLine doc number ("JMP " ++ x) p).result = .ok r) ∧
    ∀ {front back : Bytes}, Opens front → Closes back →
      AssembleAlike (front ++ ("[SP]" ++ back)) (front ++ ("PEEK" ++ back)) ∧
      ∀ {e : Bytes}, IsArithmetic e →
        AssembleAlike (front ++ ("PICK " ++ e ++ back)) (front ++ ("[SP+" ++ e ++ "]" ++ back)) ∧
        AssembleAlike (front ++ ("PICK " ++ e ++ back)) (front ++ ("[" ++ e ++ "+SP]" ++ back)) ∧
        ∀ r : Register, AssembleAlike (front ++ ("[" ++ r.name ++ "+" ++ e ++ "]" ++ back))
          (front ++ ("[" ++ e ++ "+" ++ r.name ++ "]" ++ back)) := by
  refine ⟨fun x => ⟨assembleAlike_jump x, fun hp => exists_readLine_jump hp x⟩,
    fun {front back} hf hb => ⟨tells_top.assembleAlike tells_peek hf hb, fun {e} he => ?_⟩⟩
  obtain ⟨es, hes⟩ := he.exists_cutsInto
  have hsp : ("[" ++ e ++ "+SP]" : Bytes) = "[" ++ e ++ "+" ++ "SP" ++ "]" := by
    simp only [List.append_assoc]
    rfl
  have hpick := tells_pick hes
  refine ⟨?_, ?_, fun r => ?_⟩
  · exact hpick.assembleAlike (tells_index_front hes isIndex_sp) hf hb
  · rw [hsp]
    exact hpick.assembleAlike (tells_index_behind hes isIndex_sp) hf hb
  · have hr := isIndex_register r
    exact (tells_index_front hes hr).assembleAlike (tells_index_behind hes hr) hf hb

/-- Lines with a first operand, with a second one and with a jump that is not closed. -/
theorem sample_spellings_assembleAlike :
    IsArithmetic "2*(q-1)" ∧ Opens "SET " ∧ Closes ", A" ∧ Opens "SET PEEK, " ∧ Closes " ; top" ∧
      AssembleAlike "SET PICK 2*(q-1), A" "SET [2*(q-1)+SP], A" ∧
      AssembleAlike "SET PEEK, [C+2*(q-1)] ; top" "SET PEEK, [2*(q-1)+C] ; top" ∧
      AssembleAlike "JMP [q" "SET PC, [q" ∧
      ∃ r, (readLine ⟨"main", []⟩ 1 "JMP [q"
        { defines := {}, symbols := .empty false }).result = .ok r := by
  have he : IsArithmetic "2*(q-1)" := by
    have hrun : run (among 0 none false) "2*(q-1)" = [numeral "2" 2, plain .operator "*",
        plain .groupStart "(", ⟨.labelUse, "q", some .pending, false, []⟩, plain .operator "-",
        numeral "1" 1, plain .groupEnd ")"] ++ [mark .eof] := by decide +kernel
    exact ⟨_, hrun, .binary .literal (.group (.binary .label .literal))⟩
  have hfirst : Opens ("SET" ++ [byte ' ']) := .mnemonic rfl (.inl ⟨rfl, rfl⟩)
  have hsecond : Opens "SET PEEK, " := (hfirst.comma tells_peek).blank
  have hcomma : Closes ", A" := by
    rintro _ ⟨⟩
    exact .inl rfl
  have hcomment : Closes " ; top" := by
    rintro _ ⟨⟩
    exact .inr rfl
  obtain ⟨hjump, hoperand⟩ := spellings_assembleAlike
  refine ⟨he, hfirst, hcomma, hsecond, hcomment, ?_, ?_, (hjump "[q").1, (hjump "[q").2 rfl⟩
  · exact ((hoperand hfirst hcomma).2 he).2.1
  · exact ((hoperand hsecond hcomment).2 he).2.2 .c

example :
    ((readLine ⟨"main", []⟩ 1 "SET PICK 2*(q-1), A"
      { defines := {}, symbols := .empty false }).result.map fun r =>
        r.1.outcome (fun _ => some 5) 0) = .ok (.assembled 2 (.words [0x341, 8])) := by
  decide +kernel

end Asm16
