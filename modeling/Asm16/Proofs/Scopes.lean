import Asm16.Proofs.Flattening
import Asm16.Proofs.Ledgers

/-!
# Names and scopes

The full name of a label depends on the tokens before it : a local label belongs to the last global
label they define (`fullName`). `LabelAt` puts this on the lines of a program, by the position of
the line and of the token in it.

Entering the labels of flattened lines has a closed form (`Progress.enter_eq`). The tokens get their
full names (`nameLines`), the definitions and the uses of the lines are added to the table in order,
and the first definition whose key is taken is an error (`clash?`).
-/

namespace Asm16

/-! ## Full names -/

/-- Whether a token defines a global label. -/
def Token.opensScope (t : Token) : Bool := t.kind == .labelDef && !t.isLocal

/-- The last global label that tokens define. -/
def scopeOf (before : List Token) : Bytes :=
  (before.filter Token.opensScope).getLast?.elim [] (·.name)

/-- The name of a label with its scope; `before` are the tokens before it. -/
def fullName (before : List Token) (t : Token) : Bytes :=
  if t.isLocal then scopeOf before ++ t.name else t.name

/-- The tokens before token `j` of line `i`. -/
def tokensBefore (lines : List Line) (i j : Nat) : List Token :=
  (lines.take i).flatMap (·.tokens) ++ (lines[i]?.elim [] (·.tokens)).take j

/-- Line `i` is `l` and its token `j` is `t`, of kind `kind`. -/
structure TokenAt (lines : List Line) (kind : Kind) (i j : Nat) (l : Line) (t : Token) : Prop where
  line_eq : lines[i]? = some l
  token_eq : l.tokens[j]? = some t
  kind_eq : t.kind = kind

/-- The same for a label, and `name` is its full name. -/
structure LabelAt (lines : List Line) (kind : Kind) (i j : Nat) (l : Line) (t : Token)
    (name : Bytes) : Prop extends TokenAt lines kind i j l t where
  name_eq : name = fullName (tokensBefore lines i j) t

/-- Whether there is a label at a position is found by looking there. -/
theorem exists_labelAt_iff {lines : List Line} {kind : Kind} {i j : Nat} {name : Bytes} :
    (∃ l t, LabelAt lines kind i j l t name) ↔
      ∃ t ∈ lines[i]?.bind (·.tokens[j]?),
        t.kind = kind ∧ name = fullName (tokensBefore lines i j) t := by
  constructor
  · rintro ⟨l, t, ⟨hl, ht, hk⟩, hname⟩
    exact ⟨t, by rw [hl]; exact ht, hk, hname⟩
  · rintro ⟨t, ht, hk, hname⟩
    obtain ⟨l, hl, ht⟩ := Option.bind_eq_some_iff.1 ht
    exact ⟨l, t, ⟨hl, ht, hk⟩, hname⟩

instance {lines : List Line} {kind : Kind} {i j : Nat} {name : Bytes} :
    Decidable (∃ l t, LabelAt lines kind i j l t name) :=
  decidable_of_iff' _ exists_labelAt_iff

/-! ## Lines with their names -/

/-- The global label in force after tokens. -/
def scopeAfter (scope : Bytes) (ts : List Token) : Bytes :=
  ts.foldl (fun scope t => (qualify scope t.toLexeme).2) scope

theorem scopeAfter_append (scope : Bytes) (first second : List Token) :
    scopeAfter scope (first ++ second) = scopeAfter (scopeAfter scope first) second :=
  List.foldl_append

/-- Gives a label its full name. -/
def Token.named (scope : Bytes) (t : Token) : Token :=
  if t.kind = .labelDef ∨ t.kind = .labelUse then { t with symbol := (qualify scope t.toLexeme).1 }
  else t

@[simp] theorem Token.named_kind (scope : Bytes) (t : Token) : (t.named scope).kind = t.kind := by
  unfold named
  split <;> rfl

theorem Token.named_symbol (scope : Bytes) {t : Token}
    (h : t.kind = .labelDef ∨ t.kind = .labelUse) :
    (t.named scope).symbol = if t.isLocal then scope ++ t.name else t.name := by
  rw [named, if_pos h]
  simp only [qualify]
  split <;> rfl

/-- Gives labels their full names, one after another. -/
def nameTokens (scope : Bytes) : List Token → List Token
  | [] => []
  | t :: rest => t.named scope :: nameTokens (qualify scope t.toLexeme).2 rest

/-- Gives the labels of lines their full names. -/
def nameLines (scope : Bytes) : List Line → List Line
  | [] => []
  | l :: rest =>
    { l with tokens := nameTokens scope l.tokens } :: nameLines (scopeAfter scope l.tokens) rest

/-! ## Entering labels, in closed form -/

/-- The labels that tokens of line `index` define. -/
def definitionsOf (site : Site) (index : Nat) (ts : List Token) : List Label :=
  (ts.filter (·.kind == .labelDef)).map fun t => ⟨t.symbol, t.isLocal, site, index, 0⟩

/-- The labels that tokens use. -/
def usesOf (site : Site) (ts : List Token) : List Use :=
  (ts.filter (·.kind == .labelUse)).map fun t => ⟨t.symbol, site, .pending⟩

/-- The labels lines define, the first of them line `index`. -/
def definitions (index : Nat) : List Line → List Label
  | [] => []
  | l :: rest => definitionsOf l.site index l.tokens ++ definitions (index + 1) rest

/-- The labels lines use. -/
def uses (lines : List Line) : List Use := lines.flatMap fun l => usesOf l.site l.tokens

/-- The first label whose key is taken, and the label that has it. -/
def clash? (key : Bytes → Bytes) (known : List Label) : List Label → Option (Label × Label)
  | [] => none
  | l :: rest =>
    match known.find? fun m => key m.name == key l.name with
    | some first => some (l, first)
    | none => clash? key (known ++ [l]) rest

theorem clash?_append (key : Bytes → Bytes) (known first second : List Label) :
    clash? key known (first ++ second) =
      (clash? key known first).or (clash? key (known ++ first) second) := by
  induction first generalizing known with
  | nil => simp [clash?]
  | cons l rest ih =>
    simp only [List.cons_append, clash?]
    split
    · rfl
    · rw [ih, List.append_assoc, List.singleton_append]

/-- The label whose key is taken stands behind the one that has it. -/
theorem exists_of_clash? {key : Bytes → Bytes} {known labels : List Label} {new first : Label}
    (h : clash? key known labels = some (new, first)) : ∃ before after,
      labels = before ++ new :: after ∧ first ∈ known ++ before ∧
        key first.name = key new.name := by
  induction labels generalizing known with
  | nil => cases h
  | cons l rest ih =>
    rw [clash?] at h
    split at h
    · rename_i m hm
      obtain ⟨rfl, rfl⟩ := Prod.mk.inj (Option.some.inj h)
      exact ⟨[], rest, rfl, by simpa using List.mem_of_find?_eq_some hm,
        by simpa using List.find?_some hm⟩
    · obtain ⟨before, after, rfl, hfirst, hkey⟩ := ih h
      exact ⟨l :: before, after, rfl, by simpa using hfirst, hkey⟩

theorem mem_of_clash? {key : Bytes → Bytes} {known labels : List Label} {new first : Label}
    (h : clash? key known labels = some (new, first)) : new ∈ labels := by
  obtain ⟨before, after, rfl, -⟩ := exists_of_clash? h
  simp

/-- There is no clash exactly if the keys are pairwise distinct. -/
theorem clash?_eq_none_iff {key : Bytes → Bytes} {known labels : List Label}
    (h : (known.map fun l => key l.name).Nodup) :
    clash? key known labels = none ↔ ((known ++ labels).map fun l => key l.name).Nodup := by
  induction labels generalizing known with
  | nil => simpa [clash?] using h
  | cons l rest ih =>
    rw [clash?]
    split
    · rename_i first hf
      have hkey : key first.name = key l.name := by simpa using List.find?_some hf
      have hdup : ¬((known ++ l :: rest).map fun l => key l.name).Nodup := by
        rw [List.map_append, List.nodup_append]
        rintro ⟨-, -, hne⟩
        exact hne _ (List.mem_map_of_mem (List.mem_of_find?_eq_some hf)) _ List.mem_cons_self hkey
      exact iff_of_false nofun hdup
    · rename_i hf
      have hnew : ((known ++ [l]).map fun l => key l.name).Nodup := by
        rw [List.map_append, List.nodup_append]
        refine ⟨h, by simp, ?_⟩
        intro x hx y hy
        obtain ⟨m, hm, rfl⟩ := List.mem_map.1 hx
        obtain rfl := List.mem_singleton.1 hy
        simpa using List.find?_eq_none.1 hf m hm
      rw [ih hnew, List.append_assoc, List.singleton_append]

namespace Ledger

/-- A ledger with more definitions and uses. -/
def extend (l : Ledger) (labels : List Label) (uses : List Use) : Ledger :=
  { l with labels := l.labels ++ labels, uses := l.uses ++ uses }

theorem extend_extend (l : Ledger) (labels more : List Label) (uses moreUses : List Use) :
    (l.extend labels uses).extend more moreUses =
      l.extend (labels ++ more) (uses ++ moreUses) := by
  simp only [extend, List.append_assoc]

/-- The uses of a ledger enter the table one after another. -/
theorem table_extend (l : Ledger) (labels : List Label) (uses : List Use) :
    (l.extend labels uses).table = uses.foldl SymbolTable.use (l.extend labels []).table := by
  induction uses using List.reverseRecOn with
  | nil => rfl
  | append_singleton uses u ih =>
    rw [List.foldl_append, ← ih, List.foldl_cons, List.foldl_nil, use_table, use, extend, extend,
      List.append_assoc]

end Ledger

/-- A table with more definitions and uses. -/
def SymbolTable.extend (t : SymbolTable) (labels : List Label) (uses : List Use) : SymbolTable :=
  (t.ledger.extend labels uses).table

theorem Ledger.extend_table (l : Ledger) (labels : List Label) (uses : List Use) :
    l.table.extend labels uses = (l.extend labels uses).table := by
  have huses : (l.table.ledger.extend labels []).table.useLists =
      (l.extend labels []).table.useLists := by
    have hledger : (l.table.ledger.extend labels []).table.useLists =
        l.table.ledger.table.useLists := by simp only [extend, List.append_nil]; rfl
    rw [hledger, l.table.table_ledger]
    simp only [extend, List.append_nil]
    rfl
  rw [SymbolTable.extend, table_extend, table_extend l]
  exact congrArg (uses.foldl SymbolTable.use) (SymbolTable.eq_of_lists rfl rfl huses)

namespace SymbolTable

@[simp] theorem extend_labels (t : SymbolTable) (labels : List Label) (uses : List Use) :
    (t.extend labels uses).labels = t.labels ++ labels := rfl

theorem extend_extend (t : SymbolTable) (labels more : List Label) (uses moreUses : List Use) :
    (t.extend labels uses).extend more moreUses =
      t.extend (labels ++ more) (uses ++ moreUses) :=
  (Ledger.extend_table _ more moreUses).trans (congrArg Ledger.table (Ledger.extend_extend ..))

theorem extend_nil (t : SymbolTable) : t.extend [] [] = t := by
  rw [extend, Ledger.extend, List.append_nil, List.append_nil]
  exact t.table_ledger

theorem use_eq_extend (t : SymbolTable) (u : Use) : t.use u = t.extend [] [u] := by
  have h := t.ledger.use_table u
  rw [table_ledger] at h
  rw [h, extend, Ledger.extend, Ledger.use, List.append_nil]

theorem define_eq (t : SymbolTable) (l : Label) :
    t.define l = (t.lookup? l.name).elim (.ok (t.extend [l] [])) .error := by
  have h := t.ledger.define_table l
  have hlookup := t.ledger.lookup?_table l.name
  rw [table_ledger] at h hlookup
  rw [h, hlookup, Ledger.define]
  cases t.ledger.lookup? l.name with
  | some existing => rfl
  | none =>
    rw [extend, Ledger.extend, List.append_nil]
    rfl

/-- Adds definitions and uses to a table; two definitions with one key are an error. -/
def enter (t : SymbolTable) (labels : List Label) (uses : List Use) :
    Except (Label × Label) SymbolTable :=
  match clash? t.key t.labels labels with
  | some pair => .error pair
  | none => .ok (t.extend labels uses)

theorem enter_append (t : SymbolTable) (labels more : List Label) (uses moreUses : List Use) :
    t.enter (labels ++ more) (uses ++ moreUses) =
      t.enter labels uses >>= fun t => t.enter more moreUses := by
  unfold enter
  rw [clash?_append]
  cases clash? t.key t.labels labels with
  | some pair => rfl
  | none => rw [Option.none_or, ok_bind, extend_extend]; rfl

@[simp] theorem enter_nil (t : SymbolTable) (uses : List Use) :
    t.enter [] uses = .ok (t.extend [] uses) := rfl

theorem enter_singleton (t : SymbolTable) (l : Label) :
    t.enter [l] [] = (t.define l).mapError fun first => (l, first) := by
  rw [enter, clash?, define_eq, lookup?_eq_find?]
  cases t.labels.find? fun m => t.key m.name == t.key l.name <;> rfl

/-- The definition that could not be entered is one of those given. -/
theorem mem_of_enter {t : SymbolTable} {labels : List Label} {uses : List Use} {new first : Label}
    (h : t.enter labels uses = .error (new, first)) : new ∈ labels := by
  unfold enter at h
  split at h
  · rename_i pair hpair
    obtain rfl := Except.error.inj h
    exact mem_of_clash? hpair
  · cases h

end SymbolTable

/-- The fault of a second definition. -/
def clashFault (pair : Label × Label) : Fault := .duplicateLabel pair.1.name pair.2.site

theorem definitionsOf_append (site : Site) (index : Nat) (first second : List Token) :
    definitionsOf site index (first ++ second) =
      definitionsOf site index first ++ definitionsOf site index second := by
  simp only [definitionsOf, List.filter_append, List.map_append]

theorem usesOf_append (site : Site) (first second : List Token) :
    usesOf site (first ++ second) = usesOf site first ++ usesOf site second := by
  simp only [usesOf, List.filter_append, List.map_append]

/-- Entering the labels of a token and of those behind it. -/
theorem enterLabels_cons (site : Site) (index : Nat) (t : Token) (rest : List Token)
    (symbols : SymbolTable) (scope : Bytes) : enterLabels site index symbols scope (t :: rest) =
      (symbols.enter (definitionsOf site index [t.named scope])
        (usesOf site [t.named scope])).mapError clashFault >>= fun symbols =>
          (enterLabels site index symbols (qualify scope t.toLexeme).2 rest).map fun (ts, r) =>
            (t.named scope :: ts, r) := by
  by_cases hdef : t.kind = .labelDef
  · have hdefs : definitionsOf site index [t.named scope] =
        [⟨(qualify scope t.toLexeme).1, t.isLocal, site, index, 0⟩] := by
      simp [definitionsOf, Token.named, hdef]
    have huses : usesOf site [t.named scope] = [] := by simp [usesOf, Token.named, hdef]
    rw [hdefs, huses, SymbolTable.enter_singleton]
    simp only [enterLabels, hdef, Token.named, true_or, if_true]
    cases symbols.define ⟨(qualify scope t.toLexeme).1, t.isLocal, site, index, 0⟩ with
    | error first => rfl
    | ok symbols =>
      simp only [mapError_ok, ok_bind]
      cases enterLabels site index symbols (qualify scope t.toLexeme).2 rest <;> rfl
  · have hscope : (qualify scope t.toLexeme).2 = scope := by
      cases hl : t.isLocal <;> simp [qualify, hl, hdef]
    have hdefs : definitionsOf site index [t.named scope] = [] := by
      simp only [definitionsOf, Token.named]
      split <;> simp [hdef]
    rw [hscope, hdefs, SymbolTable.enter_nil]
    by_cases huse : t.kind = .labelUse
    · have huses : usesOf site [t.named scope] =
          [⟨(qualify scope t.toLexeme).1, site, .pending⟩] := by
        simp [usesOf, Token.named, huse]
      rw [huses]
      simp only [enterLabels, huse, Token.named, or_true, if_true, SymbolTable.use_eq_extend,
        mapError_ok, ok_bind]
      cases enterLabels site index _ scope rest <;> rfl
    · have hnamed : t.named scope = t := by simp [Token.named, hdef, huse]
      have huses : usesOf site [t] = [] := by simp [usesOf, huse]
      rw [hnamed, huses, SymbolTable.extend_nil]
      simp only [enterLabels, mapError_ok, ok_bind]
      cases enterLabels site index symbols scope rest <;> rfl

theorem enterLabels_eq (site : Site) (index : Nat) (ts : List Token) (symbols : SymbolTable)
    (scope : Bytes) : enterLabels site index symbols scope ts =
      ((symbols.enter (definitionsOf site index (nameTokens scope ts))
        (usesOf site (nameTokens scope ts))).mapError clashFault).map fun symbols =>
          (nameTokens scope ts, symbols, scopeAfter scope ts) := by
  induction ts generalizing symbols scope with
  | nil =>
    simp [enterLabels, nameTokens, definitionsOf, usesOf, scopeAfter, SymbolTable.extend_nil,
      Except.map]
  | cons t rest ih =>
    have hts : nameTokens scope (t :: rest) =
        [t.named scope] ++ nameTokens (qualify scope t.toLexeme).2 rest := rfl
    rw [enterLabels_cons, hts, definitionsOf_append, usesOf_append, SymbolTable.enter_append]
    cases symbols.enter (definitionsOf site index [t.named scope])
      (usesOf site [t.named scope]) with
    | error pair => rfl
    | ok symbols =>
      simp only [mapError_ok, ok_bind, ih]
      cases symbols.enter _ _ <;> rfl

/-- The error of a second definition, on its own line. -/
def clashError (pair : Label × Label) : Error := .atLine pair.1.site (clashFault pair)

/-- Entering the labels of lines gives the tokens their full names and the table their definitions
and uses. -/
theorem Progress.enter_eq (lines : List Line) (p : Progress) : p.enter lines =
    ((p.symbols.enter (definitions p.count (nameLines p.scope lines))
      (uses (nameLines p.scope lines))).mapError clashError).map fun symbols =>
        (nameLines p.scope lines, { p with
          symbols
          scope := scopeAfter p.scope (lines.flatMap (·.tokens))
          count := p.count + lines.length
          lexErrors := p.lexErrors ++ lines.flatMap Line.lexErrors }) := by
  induction lines generalizing p with
  | nil =>
    simp [enter, nameLines, definitions, uses, scopeAfter, SymbolTable.extend_nil, Except.map]
  | cons l rest ih =>
    have huses : uses (nameLines p.scope (l :: rest)) =
        usesOf l.site (nameTokens p.scope l.tokens) ++
          uses (nameLines (scopeAfter p.scope l.tokens) rest) := rfl
    have hdefs : definitions p.count (nameLines p.scope (l :: rest)) =
        definitionsOf l.site p.count (nameTokens p.scope l.tokens) ++
          definitions (p.count + 1) (nameLines (scopeAfter p.scope l.tokens) rest) := rfl
    rw [enter, enterLabels_eq, huses, hdefs, SymbolTable.enter_append]
    cases he : p.symbols.enter (definitionsOf l.site p.count (nameTokens p.scope l.tokens))
      (usesOf l.site (nameTokens p.scope l.tokens)) with
    | error pair =>
      obtain ⟨t, -, ht⟩ := List.mem_map.1 (SymbolTable.mem_of_enter he)
      simp only [mapError_error, Except.map, error_bind, clashError, ← ht]
    | ok symbols =>
      simp only [mapError_ok, Except.map, ok_bind, ih, behind]
      cases symbols.enter _ _ with
      | error pair => rfl
      | ok symbols =>
        rw [List.flatMap_cons, scopeAfter_append, List.length_cons, ← Nat.add_right_comm,
          Nat.add_assoc p.count, List.flatMap_cons, List.append_assoc]
        rfl

/-! ## Lines apart from what is found out about them -/

/-- A token without the name and the address of its label. -/
def Token.bare (t : Token) : Token :=
  { t with symbol := [], value := if t.kind = .labelUse then none else t.value }

/-- A line as it was written : without names and addresses of labels, and not laid out. -/
def Line.bare (l : Line) : Line := { l.unplaced with tokens := l.tokens.map Token.bare }

@[simp] theorem Token.bare_kind (t : Token) : t.bare.kind = t.kind := rfl

@[simp] theorem Token.bare_isLocal (t : Token) : t.bare.isLocal = t.isLocal := rfl

@[simp] theorem Token.bare_named (scope : Bytes) (t : Token) : (t.named scope).bare = t.bare := by
  unfold named
  split <;> rfl

@[simp] theorem Token.bare_resolve (find : Bytes → Option Int) (t : Token) :
    (t.resolve find).bare = t.bare := by
  unfold resolve
  split
  · rename_i h
    simp [bare, h]
  · rfl

@[simp] theorem Line.bare_tokens (l : Line) : l.bare.tokens = l.tokens.map Token.bare := rfl

@[simp] theorem Line.bare_site (l : Line) : l.bare.site = l.site := rfl

theorem Line.bare_unplaced (l : Line) : l.unplaced.bare = l.bare := rfl

@[simp] theorem Line.bare_resolve (find : Bytes → Option Int) (l : Line) :
    (l.resolve find).bare = l.bare := by
  simp [bare, unplaced, resolve]

@[simp] theorem Line.lexErrors_bare (l : Line) : l.bare.lexErrors = l.lexErrors := by
  rw [lexErrors, bare_tokens, errorTokens, List.filter_map, List.map_map]
  rfl

theorem map_bare_nameTokens (scope : Bytes) (ts : List Token) :
    (nameTokens scope ts).map Token.bare = ts.map Token.bare := by
  induction ts generalizing scope with
  | nil => rfl
  | cons t rest ih => rw [nameTokens, List.map_cons, List.map_cons, ih, Token.bare_named]

theorem Line.bare_nameTokens (scope : Bytes) (l : Line) :
    ({ l with tokens := nameTokens scope l.tokens } : Line).bare = l.bare := by
  simp [bare, unplaced, map_bare_nameTokens]

theorem Line.lexErrors_nameTokens (scope : Bytes) (l : Line) :
    ({ l with tokens := nameTokens scope l.tokens } : Line).lexErrors = l.lexErrors := by
  rw [← lexErrors_bare, bare_nameTokens, lexErrors_bare]

theorem map_bare_nameLines (scope : Bytes) (lines : List Line) :
    (nameLines scope lines).map Line.bare = lines.map Line.bare := by
  induction lines generalizing scope with
  | nil => rfl
  | cons l rest ih =>
    rw [nameLines, List.map_cons, List.map_cons, ih, Line.bare_nameTokens]

theorem map_bare_of_unplaced {lines placed : List Line}
    (h : placed.map Line.unplaced = lines.map Line.unplaced) :
    placed.map Line.bare = lines.map Line.bare := by
  have := congrArg (List.map Line.bare) h
  simpa [Line.bare_unplaced, Function.comp_def] using this

theorem map_bare_resolve (find : Bytes → Option Int) (lines : List Line) :
    (lines.map (Line.resolve find)).map Line.bare = lines.map Line.bare := by
  simp [Function.comp_def]

/-- What is not recognised was not before. -/
theorem flatMap_lexErrors_of_bare {lines lines' : List Line}
    (h : lines'.map Line.bare = lines.map Line.bare) :
    lines'.flatMap Line.lexErrors = lines.flatMap Line.lexErrors := by
  have := congrArg (List.flatMap Line.lexErrors) h
  simpa only [List.flatMap_map, Line.lexErrors_bare] using this

/-! ## Labels by position -/

theorem scopeOf_bare (ts : List Token) : scopeOf (ts.map Token.bare) = scopeOf ts := by
  have hopens : Token.opensScope ∘ Token.bare = Token.opensScope := rfl
  rw [scopeOf, List.filter_map, hopens, List.getLast?_map]
  unfold scopeOf
  cases (ts.filter Token.opensScope).getLast? <;> rfl

theorem tokensBefore_bare (lines : List Line) (i j : Nat) :
    tokensBefore (lines.map Line.bare) i j = (tokensBefore lines i j).map Token.bare := by
  simp only [tokensBefore, List.getElem?_map, ← List.map_take, List.map_append, List.flatMap_map,
    List.map_flatMap, Line.bare_tokens]
  cases lines[i]? <;> simp [List.map_take]

/-- Full names are those of the lines as they were written. -/
theorem fullName_bare (lines : List Line) (i j : Nat) (t : Token) :
    fullName (tokensBefore (lines.map Line.bare) i j) t.bare =
      fullName (tokensBefore lines i j) t := by
  rw [tokensBefore_bare, fullName, scopeOf_bare]
  rfl

/-- A label keeps its position and its full name when names and addresses are found out. -/
theorem LabelAt.of_bare {lines lines' : List Line} (h : lines'.map Line.bare = lines.map Line.bare)
    {kind : Kind} {i j : Nat} {l : Line} {t : Token} {name : Bytes}
    (hl : LabelAt lines kind i j l t name) :
    ∃ l' t', LabelAt lines' kind i j l' t' name ∧ l'.bare = l.bare ∧ t'.bare = t.bare := by
  have hline : (lines'[i]?).map Line.bare = some l.bare := by
    rw [← List.getElem?_map, h, List.getElem?_map, hl.line_eq]
    rfl
  obtain ⟨l', hl', hbare⟩ := Option.map_eq_some_iff.1 hline
  have htoken : (l'.tokens[j]?).map Token.bare = some t.bare := by
    rw [← List.getElem?_map, ← Line.bare_tokens, hbare, Line.bare_tokens, List.getElem?_map,
      hl.token_eq]
    rfl
  obtain ⟨t', ht', htbare⟩ := Option.map_eq_some_iff.1 htoken
  refine ⟨l', t', ⟨⟨hl', ht', ?_⟩, ?_⟩, hbare, htbare⟩
  · rw [← Token.bare_kind, htbare, Token.bare_kind, hl.kind_eq]
  · rw [hl.name_eq, ← fullName_bare lines, ← h, ← htbare, fullName_bare]

theorem qualify_snd (scope : Bytes) (t : Token) :
    (qualify scope t.toLexeme).2 = if t.opensScope then t.name else scope := by
  unfold qualify Token.opensScope
  cases t.isLocal <;> by_cases hk : t.kind = .labelDef <;> simp [hk]

/-- The scope that reading keeps is the last global label it came across. -/
theorem scopeAfter_eq (scope : Bytes) (ts : List Token) :
    scopeAfter scope ts = (ts.filter Token.opensScope).getLast?.elim scope (·.name) := by
  induction ts generalizing scope with
  | nil => rfl
  | cons t rest ih =>
    have hstep : scopeAfter scope (t :: rest) = scopeAfter (qualify scope t.toLexeme).2 rest := rfl
    rw [hstep, ih, qualify_snd]
    by_cases ht : t.opensScope
    · rw [if_pos ht, List.filter_cons_of_pos ht, List.getLast?_cons]
      cases (rest.filter Token.opensScope).getLast? <;> rfl
    · rw [if_neg ht, List.filter_cons_of_neg ht]

theorem getElem?_nameTokens (scope : Bytes) (ts : List Token) (j : Nat) :
    (nameTokens scope ts)[j]? = ts[j]?.map (Token.named (scopeAfter scope (ts.take j))) := by
  induction ts generalizing scope j with
  | nil => rfl
  | cons t rest ih =>
    cases j with
    | zero => rfl
    | succ j =>
      rw [nameTokens, List.getElem?_cons_succ, List.getElem?_cons_succ, ih]
      rfl

theorem getElem?_nameLines (scope : Bytes) (lines : List Line) (i : Nat) :
    (nameLines scope lines)[i]? = lines[i]?.map fun l => { l with
      tokens := nameTokens (scopeAfter scope ((lines.take i).flatMap (·.tokens))) l.tokens } := by
  induction lines generalizing scope i with
  | nil => rfl
  | cons l rest ih =>
    cases i with
    | zero => rfl
    | succ i =>
      rw [nameLines, List.getElem?_cons_succ, List.getElem?_cons_succ, ih, List.take_succ_cons,
        List.flatMap_cons, scopeAfter_append]

/-- The name a label gets when it is entered is its full name. -/
theorem LabelAt.symbol_eq {lines : List Line} {kind : Kind} {i j : Nat} {l : Line} {t : Token}
    {name : Bytes} (hk : kind = .labelDef ∨ kind = .labelUse)
    (h : LabelAt (nameLines [] lines) kind i j l t name) : t.symbol = name := by
  obtain ⟨⟨hl, ht, hkind⟩, hname⟩ := h
  rw [getElem?_nameLines] at hl
  obtain ⟨l₀, hl₀, rfl⟩ := Option.map_eq_some_iff.1 hl
  simp only [getElem?_nameTokens] at ht
  obtain ⟨t₀, ht₀, rfl⟩ := Option.map_eq_some_iff.1 ht
  have hscope : scopeAfter (scopeAfter [] ((lines.take i).flatMap (·.tokens))) (l₀.tokens.take j) =
      scopeOf (tokensBefore lines i j) := by
    rw [← scopeAfter_append, scopeAfter_eq, tokensBefore, hl₀]
    rfl
  rw [hscope] at hname ⊢
  rw [Token.named_kind] at hkind
  calc (t₀.named (scopeOf (tokensBefore lines i j))).symbol
      = fullName (tokensBefore lines i j) t₀ := Token.named_symbol _ (hkind ▸ hk)
    _ = name := by
      rw [hname, ← fullName_bare lines, ← fullName_bare (nameLines [] lines), map_bare_nameLines,
        Token.bare_named]

end Asm16
