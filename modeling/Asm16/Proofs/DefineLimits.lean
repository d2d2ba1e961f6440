import Asm16.Proofs.Cycles

/-!
# The limit of sweeps

Expansion takes as many sweeps over a text as it needs, up to the limit of the table. A text that
comes to rest within the limit comes to rest in the same way within any higher one
(`Defines.settle_mono`), so a higher limit changes nothing but that fewer texts are refused.

The limit is kept in the table of defines, which reading hands on from line to line and into
included documents. A computation that has it somewhere in its value is `Logged.Steady` if it runs
out of sweeps with the lowest limit or does the same with every higher one. This goes through
sequences (`Logged.Steady.bind`), and so through all of reading, layout and resolution.
-/

namespace Asm16

/-! ## Expansion -/

namespace Defines

/-- The same defines with another limit. -/
def limited (n : Int) (ds : Defines) : Defines := { ds with limit := n }

theorem settle_mono {entries : List Define} {n m : Nat} (hnm : n ≤ m) {s : Bytes} {changed : Bool}
    {r : Bytes × Bool} (h : settle entries n s changed = some r) :
    settle entries m s changed = some r := by
  induction n generalizing m s changed with
  | zero =>
    rw [settle] at h
    split at h
    · rename_i hs
      rw [settle.eq_def]
      exact (if_pos hs).trans h
    · cases h
  | succ n ih =>
    obtain ⟨k, rfl⟩ : ∃ k, m = k + 1 := ⟨m - 1, by omega⟩
    rw [settle] at h ⊢
    by_cases hs : sweep entries s = s
    · rwa [if_pos hs] at h ⊢
    · rw [if_neg hs] at h ⊢
      exact ih (Nat.le_of_succ_le_succ hnm) h

theorem sweeps_limited {n : Int} (hn : 1 ≤ n) (ds : Defines) : (ds.limited n).sweeps = n.toNat :=
  if_neg (by show ¬n ≤ 0; omega)

/-- Expansion runs out of sweeps, or gives the same with every higher limit. -/
theorem expand_limited {least : Int} (hleast : 1 ≤ least) (ds : Defines) (s : Bytes) :
    (ds.limited least).expand s = .error (.endless s) ∨
      ∃ r, ∀ n, least ≤ n → (ds.limited n).expand s = .ok r := by
  cases h : settle ds.entries least.toNat s false with
  | none =>
    have hnone : settle (ds.limited least).entries (ds.limited least).sweeps s false = none := by
      rw [sweeps_limited hleast]
      exact h
    exact .inl (by rw [expand, hnone])
  | some r =>
    refine .inr ⟨r, fun n hn => ?_⟩
    have hsome : settle (ds.limited n).entries (ds.limited n).sweeps s false = some r := by
      rw [sweeps_limited (by omega)]
      exact settle_mono (by omega) h
    rw [expand, hsome]

theorem add_limited (n : Int) (ds : Defines) (d : Define) :
    (ds.limited n).add d = (ds.add d).map (limited n) := by
  unfold add
  rw [show (ds.limited n).lookup? d.key = ds.lookup? d.key from rfl]
  split <;> rfl

end Defines

/-! ## Computations with a limit -/

namespace Logged

variable {α β : Type}

/-- A computation fails since substitution in a line goes on beyond the limit. -/
def RunsOut (x : Logged Error α) : Prop :=
  ∃ site text, x.result = .error (.atLine site (.define (.endless text)))

/-- A computation that is given a limit runs out of sweeps with the limit `least`, or does the same
with all higher ones. All that is different is the limit itself, which `set` puts into the value. -/
def Steady (least : Int) (set : Int → α → α) (x : Int → Logged Error α) : Prop :=
  (x least).RunsOut ∨ ∀ n, least ≤ n → x n = set n <$> x least

variable {least : Int} {set : Int → α → α} {set' : Int → β → β}

theorem steady_fail (e : Error) : Steady least set fun _ => fail e := .inr fun _ _ => rfl

theorem Steady.map {x : Int → Logged Error α} (h : Steady least set x) {f : α → β}
    (hf : ∀ n a, f (set n a) = set' n (f a)) : Steady least set' fun n => f <$> x n := by
  rcases h with ⟨site, text, he⟩ | h
  · exact .inl ⟨site, text, by rw [result_map, he]; rfl⟩
  · refine .inr fun n hn => ?_
    show f <$> x n = set' n <$> (f <$> x least)
    rw [h n hn]
    cases x least with
    | mk log result =>
      cases result with
      | error e => rfl
      | ok a => exact congrArg (fun b => (⟨log, .ok b⟩ : Logged Error β)) (hf n a)

theorem Steady.bind {x : Int → Logged Error α} (h : Steady least set x)
    {f : Int → α → Logged Error β} (hf : ∀ a, Steady least set' fun n => f n (set n a)) :
    Steady least set' fun n => x n >>= f n := by
  rcases h with ⟨site, text, he⟩ | h
  · exact .inl ⟨site, text, by rw [result_bind, he, error_bind]⟩
  cases hx : x least with
  | mk log result =>
    rw [hx] at h
    cases result with
    | error e =>
      refine .inr fun n hn => ?_
      show x n >>= f n = set' n <$> (x least >>= f least)
      rw [h n hn, hx]
      rfl
    | ok a =>
      -- the value has the lowest limit already
      have ha : set least a = a := by
        have hsame := congrArg result (hx.symm.trans (h least (Int.le_refl _)))
        exact (Except.ok.inj hsame).symm
      rcases hf a with ⟨site, text, he⟩ | hf
      · replace he : (f least (set least a)).result = _ := he
        refine .inl ⟨site, text, ?_⟩
        show (x least >>= f least).result = _
        rw [hx, ← he, ha]
        rfl
      · refine .inr fun n hn => ?_
        have hvalue : f n (set n a) = set' n <$> f least (set least a) := hf n hn
        rw [ha] at hvalue
        show x n >>= f n = set' n <$> (x least >>= f least)
        rw [h n hn, hx]
        show (⟨log ++ (f n (set n a)).log, (f n (set n a)).result⟩ : Logged Error β) = _
        rw [hvalue]
        rfl

/-- What does not depend on the limit may come first. -/
theorem Steady.after {γ : Type} (x : Logged Error γ) {f : Int → γ → Logged Error β}
    (hf : ∀ a, Steady least set' fun n => f n a) : Steady least set' fun n => x >>= f n := by
  have hx : Steady least (fun _ a => a) fun _ => x := by
    refine .inr fun n _ => ?_
    cases x with
    | mk log result => cases result <;> rfl
  exact hx.bind hf

end Logged

/-! ## Lines -/

section Lines

variable {least : Int} (hleast : 1 ≤ least)

include hleast

theorem readDefine_limited (site : Site) (ds : Defines) (r : Reading) (params : Bytes) :
    (∃ text, readDefine site (ds.limited least) r params = .error (.endless text)) ∨
      ∀ n, least ≤ n → readDefine site (ds.limited n) r params =
        (readDefine site (ds.limited least) r params).map
          fun (r, ds, d) => (r, ds.limited n, d) := by
  unfold readDefine
  cases Define.split params with
  | error e => exact .inr fun n _ => rfl
  | ok parts =>
    simp only [ok_bind]
    rcases ds.expand_limited hleast parts.value with he | ⟨⟨value, changed⟩, hexpand⟩
    · exact .inl ⟨parts.value, by rw [he, error_bind]⟩
    · refine .inr fun n hn => ?_
      rw [hexpand n hn, hexpand least (Int.le_refl _)]
      simp only [ok_bind, Defines.add_limited]
      cases Define.make parts.key value (some site) with
      | error e => rfl
      | ok d =>
        simp only [ok_bind]
        cases ds.add d <;> rfl

theorem readPlain_limited (ds : Defines) (r : Reading) :
    readPlain (ds.limited least) r = .error (.endless r.text) ∨
      ∀ n, least ≤ n → readPlain (ds.limited n) r = readPlain (ds.limited least) r := by
  unfold readPlain
  rcases ds.expand_limited hleast r.text with he | ⟨⟨text, changed⟩, hexpand⟩
  · exact .inl (by rw [he, error_bind])
  · exact .inr fun n hn => by rw [hexpand n hn, hexpand least (Int.le_refl _)]

theorem steady_applyDefines (site : Site) (ds : Defines) :
    Logged.Steady least (fun n => Prod.map id (Defines.limited n))
      fun n => applyDefines site (ds.limited n) := by
  unfold applyDefines
  simp only
  split
  · rename_i word params hdirective
    rcases readDefine_limited hleast site ds (.ofText .initial site.raw) params with
      ⟨text, he⟩ | hread
    · exact .inl ⟨site, text, by simp only [he, Logged.result_fail]⟩
    · refine .inr fun n hn => ?_
      simp only [hread n hn]
      cases readDefine site (ds.limited least) (.ofText .initial site.raw) params <;> rfl
  · exact .inr fun n _ => rfl
  · rcases readPlain_limited hleast ds (.ofText .initial site.raw) with he | hread
    · exact .inl ⟨site, site.raw, by simp only [he, Logged.result_fail]; rfl⟩
    · refine .inr fun n hn => ?_
      simp only [hread n hn]
      cases readPlain (ds.limited least) (.ofText .initial site.raw) <;> rfl

end Lines

/-! ## Documents -/

/-- The same progress with another limit. -/
def Progress.limited (n : Int) (p : Progress) : Progress :=
  { p with defines := p.defines.limited n }

/-- The same extent with another limit. -/
def Extent.limited (n : Int) (e : Extent) : Extent := { e with progress := e.progress.limited n }

/-- A reader of included documents that is steady whatever it reads. -/
def ChildReader.Steady (least : Int) (child : ChildReader) : Prop :=
  ∀ doc text (p : Progress), Logged.Steady least (fun n => Prod.map id (Extent.limited n))
    fun n => child doc text (p.limited n)

section Documents

variable {least : Int} {source : Option Source}

theorem steady_readIncluded {child : ChildReader} (hchild : child.Steady least) (line : Line)
    (p : Progress) :
    Logged.Steady least Extent.limited fun n => readIncluded source child line (p.limited n) := by
  unfold readIncluded
  cases included? line.directive with
  | none => exact .inr fun n _ => rfl
  | some params =>
    simp only [readInclude]
    cases source.bind fun s => s.resolve? line.document.name (includePath params) with
    | none => exact Logged.steady_fail _
    | some file =>
      obtain ⟨name, text⟩ := file
      by_cases hc : line.document.hasAncestor name
      · simp only [hc, if_true]
        exact Logged.steady_fail _
      · simp only [hc, if_false, Bool.false_eq_true]
        exact .after _ fun _ => (hchild _ text p).bind fun r => .inr fun n _ => rfl

variable (hleast : 1 ≤ least)

include hleast

theorem steady_readLine (doc : Document) (number : Nat) (raw : Bytes) (p : Progress) :
    Logged.Steady least (fun n => Prod.map id (Progress.limited n))
      fun n => readLine doc number raw (p.limited n) := by
  unfold readLine
  refine .after _ fun _ => ?_
  refine (steady_applyDefines hleast _ p.defines).bind fun r => .after _ fun _ => ?_
  refine .inr fun n _ => ?_
  cases hlabels : enterLabels ⟨doc.name, number, raw⟩ p.count p.symbols p.scope r.1.tokens <;>
  · simp only [Progress.limited, id_eq, hlabels]
    rfl

theorem steady_readLines {child : ChildReader} (hchild : child.Steady least) (doc : Document)
    (cut : Bool) (number : Nat) (raws : List Bytes) (p : Progress) :
    Logged.Steady least Extent.limited
      fun n => readLines source child doc cut number raws (p.limited n) := by
  induction raws generalizing number p with
  | nil =>
    cases cut with
    | false => exact .inr fun n _ => rfl
    | true => exact Logged.steady_fail _
  | cons raw rest ih =>
    simp only [readLines_cons]
    refine (steady_readLine hleast doc number raw p).bind fun r => ?_
    refine (steady_readIncluded hchild r.1 r.2).bind fun inner => ?_
    exact (ih (number + 1) inner.progress).map fun n more => rfl

theorem steady_readDocument (source : Option Source) (depth : Nat) :
    ChildReader.Steady least (readDocument source depth) := by
  intro doc text p
  induction depth generalizing doc text p with
  | zero =>
    have hchild : ChildReader.Steady least (childReader source 0) := fun _ _ _ =>
      Logged.steady_fail _
    exact (steady_readLines hleast hchild doc _ 1 _ p).map fun n extent => rfl
  | succ depth ih =>
    have hchild : ChildReader.Steady least (childReader source (depth + 1)) := ih
    exact (steady_readLines hleast hchild doc _ 1 _ p).map fun n extent => rfl

end Documents

/-! ## Programs -/

namespace Assembly

/-- The same program, with another limit for its defines. -/
def limited (n : Int) (a : Assembly) : Assembly := { a with defines := a.defines.limited n }

theorem steady_resolved (least : Int) (a : Assembly) :
    Logged.Steady least limited fun n => (a.limited n).resolved := by
  unfold resolved
  refine .after (layout 0 a.lines) fun lines => .inr fun n _ => ?_
  cases hresolve : (a.locatedSymbols lines).resolve with
  | mk symbols missing =>
    unfold locatedSymbols at hresolve
    cases missing <;>
    · simp only [limited, hresolve]
      rfl

theorem steady_completed (least : Int) (a : Assembly) :
    Logged.Steady least (fun n => Prod.map (limited n) id) fun n => (a.limited n).completed := by
  have hlex (n : Int) : (a.limited n).lexicalError? = a.lexicalError? := rfl
  simp only [completed, hlex]
  cases a.lexicalError? with
  | some e => exact .inr fun n _ => rfl
  | none => exact (a.steady_resolved least).map fun n b => rfl

end Assembly

namespace Assembler

/-- The same assembler with the limit `n`. -/
def limited (asm : Assembler) (n : Int) : Assembler := { asm with defineLimit := n }

theorem addDefines_limited (n : Int) (ds : Defines) (pairs : List (Bytes × Bytes)) :
    addDefines (ds.limited n) pairs = (addDefines ds pairs).map (Defines.limited n) := by
  induction pairs generalizing ds with
  | nil => rfl
  | cons pair rest ih =>
    rw [addDefines, addDefines]
    cases Define.make pair.1 pair.2 with
    | error e => rfl
    | ok d =>
      simp only [ok_bind, Defines.add_limited]
      cases ds.add d with
      | error e => rfl
      | ok ds' => exact ih ds'

theorem steady_initialDefines (asm : Assembler) (least : Int) :
    Logged.Steady least Defines.limited fun n => .lift (asm.limited n).initialDefines := by
  have hempty (n : Int) (pairs : List (Bytes × Bytes)) :
      addDefines ⟨n, []⟩ pairs = (addDefines ⟨0, []⟩ pairs).map (Defines.limited n) :=
    addDefines_limited n ⟨0, []⟩ pairs
  refine .inr fun n _ => ?_
  simp only [initialDefines, limited]
  rw [hempty n, hempty least]
  cases addDefines ⟨0, []⟩ (asm.predefines.mergeSort fun x y => Bytes.le x.1 y.1) <;> rfl

section Programs

variable {least : Int} (hleast : 1 ≤ least) (asm : Assembler)

include hleast

theorem steady_readProgram (name text : Bytes) (ds : Defines) : Logged.Steady least Assembly.limited
    fun n => (asm.limited n).readProgram name text (ds.limited n) := by
  have hread := steady_readDocument hleast asm.source (fileCount asm.source) ⟨name, []⟩ text
    (asm.start ds)
  unfold readProgram
  exact hread.bind fun r => .inr fun n _ => rfl

theorem steady_parseContents (name : Bytes) (contents : Except FileError Bytes) :
    Logged.Steady least (fun n => Prod.map (Assembly.limited n) id)
      fun n => (asm.limited n).parseContents name contents := by
  unfold parseContents
  refine (steady_initialDefines asm least).bind fun ds => .after _ fun text => ?_
  exact (steady_readProgram hleast asm name text ds).bind fun program =>
    program.steady_completed least

end Programs

/-- Raising the limit of sweeps changes nothing for a program whose expansions come to an end within
the limit : it leaves the same records, and gives the same program or the same error. -/
theorem parse_limited (asm : Assembler) {low high : Int} (hlow : 1 ≤ low) (hle : low ≤ high)
    (name text : Bytes) (h : ¬((asm.limited low).parse name text).RunsOut) :
    (asm.limited high).parse name text =
      Prod.map (Assembly.limited high) id <$> (asm.limited low).parse name text :=
  (steady_parseContents hlow asm (Path.clean name) (.ok text)).resolve_left h high hle

/-- Predefines that take two sweeps : `Z` becomes `Y` in the first one, behind the turn of `Y`. -/
def twoSweepAssembler : Assembler := { predefines := [("Y", "0x10"), ("Z", "Y")] }

/-- A define and an instruction that both need the two sweeps. -/
def twoSweepText : Bytes := "#define N Z + 1\nSET A, N + Z"

/-- The table that the predefines make. -/
def twoSweepDefines (n : Int) : Defines := ⟨n, [⟨"Y", "0x10", none⟩, ⟨"Z", "Y", none⟩]⟩

theorem initialDefines_twoSweep (n : Int) :
    (twoSweepAssembler.limited n).initialDefines = .ok (twoSweepDefines n) := by
  have hsorted : (twoSweepAssembler.limited n).predefines.mergeSort (fun x y => Bytes.le x.1 y.1) =
      twoSweepAssembler.predefines :=
    List.mergeSort_of_pairwise (l := twoSweepAssembler.predefines) (by decide)
  have hadd : addDefines ⟨0, []⟩ twoSweepAssembler.predefines = .ok (twoSweepDefines 0) := by
    decide +kernel
  have hlimit : addDefines ⟨(twoSweepAssembler.limited n).defineLimit, []⟩
      twoSweepAssembler.predefines =
        (addDefines ⟨0, []⟩ twoSweepAssembler.predefines).map (Defines.limited n) :=
    addDefines_limited n ⟨0, []⟩ _
  rw [initialDefines, hsorted, hlimit, hadd]
  rfl

/-- Two sweeps are enough for the program, and one is not. -/
theorem twoSweep_parse_limited :
    ((twoSweepAssembler.limited 1).parse "main" twoSweepText).RunsOut ∧
    ∃ a, (twoSweepAssembler.limited 2).Accepts "main" twoSweepText a ∧ a.size = 2 ∧
      (twoSweepAssembler.limited 40).Accepts "main" twoSweepText (a.limited 40) := by
  constructor
  · have hrun : (match ((twoSweepAssembler.limited 1).readProgram (Path.clean "main") twoSweepText
        (twoSweepDefines 1)).result with
        | .error (.atLine _ (.define (.endless _))) => true
        | _ => false) = true := by decide +kernel
    split at hrun
    · exact ⟨_, _, parse_eq_error_of_readProgram (initialDefines_twoSweep 1) ‹_›⟩
    · cases hrun
  · have hrun : ((twoSweepAssembler.limited 2).readProgram (Path.clean "main") twoSweepText
        (twoSweepDefines 2)).result.toOption.any (fun program => program.lexErrors.isEmpty &&
          program.resolved.result.toOption.any fun a => decide (a.size = 2)) = true := by
      decide +kernel
    obtain ⟨program, hprogram, hrest⟩ := exists_ok hrun
    simp only [Bool.and_eq_true, List.isEmpty_iff] at hrest
    obtain ⟨a, ha, hsize⟩ := exists_ok hrest.2
    have haccepts : (twoSweepAssembler.limited 2).Accepts "main" twoSweepText a :=
      accepts_of_resolved (initialDefines_twoSweep 2) hprogram hrest.1 ha
    have hends : ¬((twoSweepAssembler.limited 2).parse "main" twoSweepText).RunsOut := by
      rintro ⟨site, text, he⟩
      cases haccepts.symm.trans he
    refine ⟨a, haccepts, of_decide_eq_true hsize, ?_⟩
    rw [Accepts, parse_limited twoSweepAssembler (by decide) (by decide) "main" twoSweepText hends,
      Logged.result_map, haccepts]
    rfl

end Assembler

end Asm16
