import Asm16.Proofs.Laid

/-!
# Sizes and words

The layout gives a line its size before any label has an address; the encoder makes its words later,
from other functions. `Line.length_encoded` says that they agree : whatever a measured line is, if
it encodes, it has as many words as its size says. A line whose addresses wrapped around has a size
below zero and does not encode.
-/

namespace Asm16

/-- The words of a block, its zeros written out. -/
def Block.toWords : Block → List UInt16
  | words ws => ws
  | zeros count => List.replicate count 0

@[simp] theorem Block.length_toWords (b : Block) : b.toWords.length = b.size := by
  cases b <;> simp [toWords, size]

/-- The words a line puts into the image, none if it does not encode. -/
def Line.encoded (l : Line) : List UInt16 := l.encode.toOption.elim [] Block.toWords

theorem Line.encoded_of_encode {l : Line} {b : Block} (h : l.encode = .ok b) :
    l.encoded = b.toWords := by
  rw [encoded, h]
  rfl

/-! ## Instructions -/

theorem Operand.length_of_encode {o : Operand} {ws : List UInt16} (h : o.encode = .ok ws) :
    ws.length = o.extra := by
  unfold encode at h
  unfold extra
  cases he : o.expr with
  | none =>
    obtain rfl : [] = ws := by simpa [he] using h
    rfl
  | some ts =>
    rw [he] at h
    obtain ⟨n, -, h⟩ := bind_eq_ok.1 h
    obtain rfl := Except.ok.inj h
    rfl

theorem Instruction.length_of_encode {c : Instruction} {ws : List UInt16} (h : c.encode = .ok ws) :
    ws.length = c.size := by
  cases c with
  | basic op b a =>
    obtain ⟨forA, hA, h⟩ := bind_eq_ok.1 h
    obtain ⟨forB, hB, h⟩ := bind_eq_ok.1 h
    obtain rfl := Except.ok.inj h
    rw [size, ← Operand.length_of_encode hA, ← Operand.length_of_encode hB]
    simp only [List.length_append, List.length_cons]
    omega
  | special op a =>
    obtain ⟨forA, hA, h⟩ := bind_eq_ok.1 h
    obtain rfl := Except.ok.inj h
    rw [size, ← Operand.length_of_encode hA, List.length_cons, Nat.add_comm]

/-! ## Data -/

theorem length_of_encodeValue {text : Bytes} {run : List Token} {ws : List UInt16}
    (h : encodeValue text run = .ok ws) : ws.length = dataSize run := by
  unfold encodeValue at h
  unfold dataSize
  cases hs : loneString? run with
  | some contents =>
    rw [hs] at h
    obtain rfl := Except.ok.inj h
    rw [List.length_map]
  | none =>
    rw [hs] at h
    cases he : evaluateTokens run with
    | error cause => simp [he] at h
    | ok n =>
      obtain rfl : [UInt16.ofInt n] = ws := by simpa [he] using h
      rfl

theorem length_of_encodeValues {text : Bytes} : ∀ {runs : List (List Token)} {ws : List UInt16},
    encodeValues text runs = .ok ws → ws.length = dataSizes runs
  | [], ws, h => by
    obtain rfl := Except.ok.inj h
    rfl
  | run :: rest, ws, h => by
    obtain ⟨here, hhere, h⟩ := bind_eq_ok.1 h
    obtain ⟨more, hmore, h⟩ := bind_eq_ok.1 h
    obtain rfl := Except.ok.inj h
    rw [List.length_append, length_of_encodeValue hhere, length_of_encodeValues hmore, dataSizes]

/-- The number of words of a data value, by the form of its tokens. -/
theorem dataSize_eq (run : List Token) : dataSize run =
    match run with
    | [t] => if t.kind = .string then (Utf8.chars t.contents).length else 1
    | _ => 1 := by
  unfold dataSize loneString?
  match run with
  | [] => rfl
  | [t] =>
    simp only
    by_cases h : t.kind = .string
    · rw [if_pos h, if_pos h]
    · rw [if_neg h, if_neg h]
  | _ :: _ :: _ => rfl

/-! ## Lines -/

namespace Line

variable {l : Line} {offset : Int}

/-- A measured line without a directive has the size of its instruction. -/
theorem measure_instruction (h : l.measure offset = .ok (l.size, l.code))
    (hd : l.directive = none) :
    Instruction.parse l.text l.significant = .ok l.code ∧
      l.size = l.code.elim 0 fun c => (c.size : Int) := by
  unfold measure at h
  rw [hd] at h
  obtain ⟨code, hp, h⟩ := bind_eq_ok.1 h
  obtain ⟨hs, rfl⟩ := Prod.mk.inj (Except.ok.inj h)
  exact ⟨hp, hs.symm⟩

/-- A line with a directive holds no instruction. -/
theorem code_eq_none {d : Directive} (h : l.measure offset = .ok (l.size, l.code))
    (hd : l.directive = some d) : l.code = none := by
  unfold measure at h
  rw [hd] at h
  cases hk : d.kind with
  | origin | align | reserve =>
    simp only [hk] at h
    obtain ⟨n, -, h⟩ := bind_eq_ok.1 h
    split at h
    · simp at h
    · exact (Prod.mk.inj (Except.ok.inj h)).2.symm
  | inclusion | define =>
    simp only [hk] at h
    exact (Prod.mk.inj (Except.ok.inj h)).2.symm
  | data =>
    simp only [hk] at h
    obtain ⟨runs, -, h⟩ := bind_eq_ok.1 h
    exact (Prod.mk.inj (Except.ok.inj h)).2.symm

/-- The instruction of a measured line is the one its tokens spell, and gives it its size. -/
theorem measure_code {c : Instruction} (h : l.measure offset = .ok (l.size, l.code))
    (hc : l.code = some c) :
    Instruction.parse l.text l.significant = .ok (some c) ∧ l.size = c.size := by
  cases hd : l.directive with
  | some d => simp [code_eq_none h hd] at hc
  | none =>
    obtain ⟨hp, hs⟩ := measure_instruction h hd
    rw [hc] at hp hs
    exact ⟨hp, hs⟩

theorem measure_data (h : l.measure offset = .ok (l.size, l.code)) (hk : l.kind? = some .data) :
    ∃ runs, l.dataValues = .ok runs ∧ l.size = dataSizes runs := by
  obtain ⟨d, hd, hdk⟩ := Option.map_eq_some_iff.1 hk
  unfold measure at h
  rw [hd] at h
  simp only [hdk] at h
  obtain ⟨runs, hruns, h⟩ := bind_eq_ok.1 h
  exact ⟨runs, hruns, (Prod.mk.inj (Except.ok.inj h)).1.symm⟩

theorem measure_empty {d : Directive} (h : l.measure offset = .ok (l.size, l.code))
    (hd : l.directive = some d) (hk : d.kind = .inclusion ∨ d.kind = .define) : l.size = 0 := by
  unfold measure at h
  rw [hd] at h
  rcases hk with hk | hk <;>
  · simp only [hk] at h
    exact (Prod.mk.inj (Except.ok.inj h)).1.symm

/-- A measured line that encodes has as many words as its size says. -/
theorem length_encoded {b : Block} (h : l.measure offset = .ok (l.size, l.code))
    (he : l.encode = .ok b) : (b.toWords.length : Int) = l.size := by
  rw [Block.length_toWords]
  unfold encode kind? at he
  cases hd : l.directive with
  | none =>
    obtain ⟨-, hs⟩ := measure_instruction h hd
    simp only [hd, Option.map_none] at he
    cases hc : l.code with
    | none =>
      obtain rfl : .words [] = b := by simpa [hc] using he
      rw [hs, hc]
      rfl
    | some c =>
      rw [hc] at hs
      cases hce : c.encode with
      | error cause => simp [hc, hce] at he
      | ok ws =>
        obtain rfl : .words ws = b := by simpa [hc, hce] using he
        rw [hs, Block.size, Instruction.length_of_encode hce]
        rfl
  | some d =>
    cases hk : d.kind with
    | data =>
      obtain ⟨runs, hruns, hs⟩ := measure_data h (by rw [kind?, hd, Option.map_some, hk])
      simp only [hd, Option.map_some, hk, hruns, ok_bind] at he
      obtain ⟨ws, hws, he⟩ := bind_eq_ok.1 he
      obtain rfl := Except.ok.inj he
      rw [hs, Block.size, length_of_encodeValues hws]
    | origin | align | reserve =>
      simp only [hd, Option.map_some, hk] at he
      split at he
      · simp at he
      · obtain rfl := Except.ok.inj he
        rw [Block.size]
        omega
    | inclusion | define =>
      simp only [hd, Option.map_some, hk, code_eq_none h hd] at he
      obtain rfl := Except.ok.inj he
      rw [measure_empty h hd (by simp [hk])]
      rfl

end Line

/-- The layout and the encoder agree on every line of an accepted program : the size of a line is
the one `Line.measure` finds at its address, and a line that encodes has that many words. An
instruction has its first word and one for each operand with an expression of its own; a data line
has the characters of a value that is a lone string, and one word for any other value. -/
theorem Assembler.size_eq_length_encode {asm : Assembler} {name text : Bytes} {a : Assembly}
    (ha : asm.Accepts name text a) {l : Line} (hl : l ∈ a.lines) :
    l.measure l.offset = .ok (l.size, l.code) ∧
    (∀ block, l.encode = .ok block → (block.toWords.length : Int) = l.size) ∧
    (∀ op forB forA, l.code = some (.basic op forB forA) →
      l.size = 1 + (if forA.expr.isSome then 1 else 0) + (if forB.expr.isSome then 1 else 0)) ∧
    (∀ op forA, l.code = some (.special op forA) →
      l.size = 1 + (if forA.expr.isSome then 1 else 0)) ∧
    (l.kind? = some .data → ∃ runs, l.dataValues = .ok runs ∧ l.size = dataSizes runs ∧
      ∀ run ∈ runs, dataSize run =
        match run with
        | [t] => if t.kind = .string then (Utf8.chars t.contents).length else 1
        | _ => 1) := by
  have hm := (laid_of_accepts ha).measure_eq hl
  refine ⟨hm, fun block he => Line.length_encoded hm he, ?_, ?_, fun hk => ?_⟩
  · intro op forB forA hc
    rw [(Line.measure_code hm hc).2, Instruction.size, Operand.extra, Operand.extra]
    split <;> split <;> rfl
  · intro op forA hc
    rw [(Line.measure_code hm hc).2, Instruction.size, Operand.extra]
    split <;> rfl
  · obtain ⟨runs, hruns, hs⟩ := Line.measure_data hm hk
    exact ⟨runs, hruns, hs, fun run _ => dataSize_eq run⟩

/-- A program with a line of every kind, and the sizes of its lines. -/
theorem sample_size_eq_length_encode : ∃ a, sampleAssembler.Accepts "m" sampleText a ∧
    a.lines.map (·.size) = [0, 1, 2, 0, 3, 2, 2, 2, 0, 4, 5, 2, 0] ∧
    ∀ l ∈ a.lines, ∀ block, l.encode = .ok block → (block.toWords.length : Int) = l.size := by
  obtain ⟨a, ha, hs⟩ := sampleAssembler.exists_accepts "m" sampleText
    (fun a => a.lines.map (·.size) == [0, 1, 2, 0, 3, 2, 2, 2, 0, 4, 5, 2, 0]) (by decide +kernel)
  exact ⟨a, ha, eq_of_beq hs, fun l hl => (Assembler.size_eq_length_encode ha hl).2.1⟩

end Asm16
